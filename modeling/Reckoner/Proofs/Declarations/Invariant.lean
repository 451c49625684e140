import Reckoner.Proofs.Declarations
import Reckoner.Proofs.Expr.Nodes

/-!
What the declarations of all sessions have in common. They are sound: every expression they
keep is readable where their functions may be called, and no function has the name of a
built-in one. So all calls in what they keep resolve.
-/

set_option autoImplicit false
set_option relaxedAutoImplicit false

namespace Reckoner

namespace Declarations

/-- Whether the expression may be kept among the declarations. -/
def Keeps (declarations : Declarations) (expr : Expr) : Prop :=
  expr.Readable declarations.builtins fun name ↦ declarations.functions.contains name = true

/-- What the declarations of every session have in common. -/
structure Sound (declarations : Declarations) : Prop where
  functions : ∀ name definition, declarations.functions.find? name = some definition →
    declarations.Keeps definition.body
  constants : ∀ name value, declarations.constants.find? name = some value →
    declarations.Keeps value
  unshadowed : ∀ name, declarations.functions.contains name = true →
    declarations.builtins.contains name = false

/-- The later declarations have everything that the earlier ones have, constants perhaps
with other values. -/
structure KeptBy (before after : Declarations) : Prop where
  builtins : after.builtins = before.builtins
  functions : ∀ name definition, before.functions.find? name = some definition →
    after.functions.find? name = some definition
  constants : ∀ name, before.constants.contains name = true →
    after.constants.contains name = true

theorem KeptBy.refl (declarations : Declarations) : declarations.KeptBy declarations :=
  ⟨rfl, fun _ _ h ↦ h, fun _ h ↦ h⟩

theorem KeptBy.trans {first middle last : Declarations} (hfirst : first.KeptBy middle)
    (hlast : middle.KeptBy last) : first.KeptBy last where
  builtins := hlast.builtins.trans hfirst.builtins
  functions name definition h :=
    hlast.functions name definition (hfirst.functions name definition h)
  constants name h := hlast.constants name (hfirst.constants name h)

theorem KeptBy.contains_functions {before after : Declarations} (h : before.KeptBy after)
    {name : String} (hname : before.functions.contains name = true) :
    after.functions.contains name = true := by
  obtain ⟨definition, hfind⟩ := Option.isSome_iff_exists.mp hname
  rw [NameMap.contains, h.functions name definition hfind]
  rfl

/-- An expression that is kept once may be kept from then on. -/
theorem Keeps.mono {before after : Declarations} {expr : Expr} (hexpr : before.Keeps expr)
    (h : before.KeptBy after) : after.Keeps expr := by
  unfold Keeps
  rw [h.builtins]
  exact Expr.Readable.mono hexpr fun name ↦ h.contains_functions

/-- The constants that are there at the start are numbers without a position. -/
theorem exists_of_find?_constants_initial {builtins : NameMap Builtin}
    {constants : List (String × Float)} {name : String} {value : Expr}
    (h : (initial builtins constants).constants.find? name = some value) :
    ∃ x, value = .literal .unknown (.number x) := by
  have hofList (entries : List (String × Float)) (map : NameMap Expr)
      (hmap : ∀ name value, map.find? name = some value →
        ∃ x, value = .literal .unknown (.number x)) :
      ∀ name value, ((entries.map fun entry ↦
        (entry.1, Expr.literal .unknown (.number entry.2))).foldl
          (fun map entry ↦ map.insert entry.1 entry.2) map).find? name = some value →
        ∃ x, value = .literal .unknown (.number x) := by
    induction entries generalizing map with
    | nil => exact hmap
    | cons entry entries ih =>
      refine ih _ fun name value hfind ↦ ?_
      rw [NameMap.find?_insert] at hfind
      split at hfind
      · exact ⟨entry.2, (Option.some.inj hfind).symm⟩
      · exact hmap name value hfind
  exact hofList (seededConstants ++ constants) .empty nofun name value h

/-- Only numbers are kept at the start. -/
theorem sound_initial (builtins : NameMap Builtin) (constants : List (String × Float)) :
    (initial builtins constants).Sound := by
  refine ⟨nofun, fun name value hfind ↦ ?_, nofun⟩
  obtain ⟨x, rfl⟩ := exists_of_find?_constants_initial hfind
  exact Expr.readable_number _ _

/-- Whether every call in the expression is of a function in force: one of a declared function
not of a built-in one, and one of a built-in function of an entry of the table. -/
def Resolves (declarations : Declarations) (expr : Expr) : Prop :=
  ∀ node, Expr.NodeOf node expr →
    (∀ pos name args, node = .userCall pos name args →
      declarations.functions.contains name = true ∧
        declarations.builtins.contains name = false) ∧
    ∀ pos name args, node = .builtinCall pos name args →
      declarations.builtins.contains name = true

/-- Whether everything that the declarations keep resolves in them, and no function has the
name of a built-in one. -/
structure Closed (declarations : Declarations) : Prop where
  functions : ∀ name definition, declarations.functions.find? name = some definition →
    declarations.Resolves definition.body
  constants : ∀ name value, declarations.constants.find? name = some value →
    declarations.Resolves value
  unshadowed : ∀ name, declarations.functions.contains name = true →
    declarations.builtins.contains name = false

theorem Keeps.resolves {declarations : Declarations} {expr : Expr}
    (h : declarations.Keeps expr) : declarations.Resolves expr := by
  intro node hnode
  have hread := h.nodes node hnode
  constructor
  · rintro pos name args rfl
    exact ⟨hread.2.1, hread.1⟩
  · rintro pos name args rfl
    exact hread.1

theorem Sound.closed {declarations : Declarations} (h : declarations.Sound) :
    declarations.Closed :=
  ⟨fun name definition hfind ↦ (h.functions name definition hfind).resolves,
    fun name value hfind ↦ (h.constants name value hfind).resolves, h.unshadowed⟩

end Declarations

end Reckoner
