import Reckoner.Builtin
import Reckoner.Expr

/-!
The declarations that outlive a statement: functions and constants, with the table of
built-in functions that calls are resolved against first. A constant is kept as the
expression that defines it.
-/

set_option autoImplicit false
set_option relaxedAutoImplicit false

namespace Reckoner

/-- What a statement can declare. -/
inductive Declaration where
  | function (definition : FunctionDef)
  | constant (name : String) (value : Expr)

/-- The function of the given name that is declared, if it is a function. -/
def Declaration.declaresFunction (name : String) : Declaration → Bool
  | function definition => definition.name = name
  | constant _ _ => false

/-- All declarations in force. -/
structure Declarations where
  builtins : NameMap Builtin
  functions : NameMap FunctionDef
  constants : NameMap Expr

namespace Declarations

/-- The constants that are there before anything is declared. -/
def seededConstants : List (String × Float) :=
  [("PI", 3.141592653589793), ("E", 2.718281828459045), ("G", 6.67430)]

/-- The declarations before the first statement: a table of built-in functions, the seeded
constants and further ones. Seeded constants have no position. -/
def initial (builtins : NameMap Builtin) (constants : List (String × Float)) : Declarations where
  builtins := builtins
  functions := .empty
  constants := .ofList ((seededConstants ++ constants).map fun (name, value) ↦
    (name, .literal .unknown (.number value)))

/-- Whether a function of this name exists already. -/
def isFunction (declarations : Declarations) (name : String) : Bool :=
  declarations.builtins.contains name || declarations.functions.contains name

/-- The declarations after one more. A later declaration of a name replaces the earlier one. -/
def declare (declarations : Declarations) : Declaration → Declarations
  | .function definition =>
    { declarations with functions := declarations.functions.insert definition.name definition }
  | .constant name value =>
    { declarations with constants := declarations.constants.insert name value }

/-- The declarations after several more, in order. -/
def declareAll (declarations : Declarations) (more : List Declaration) : Declarations :=
  more.foldl declare declarations

/-- The declared functions in the order of their names. -/
def listFunctions (declarations : Declarations) : List FunctionDef :=
  declarations.functions.sorted.map (·.2)

/-- The constants that statements have declared, in the order of their names. -/
def listConstants (declarations : Declarations) : List (String × Expr) :=
  declarations.constants.sorted.filter fun (_, value) ↦ value.pos ≠ .unknown

end Declarations

end Reckoner
