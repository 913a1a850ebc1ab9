import Formulary.Proofs.Requests
import Formulary.Proofs.RoundTrip

/-! # Chains of calls

A function of one parameter can be called on its own result any number of times over. So
whatever number of levels the text of a tree may have, there is code for a tree that has more,
and whoever asks for it is broken off.
-/

namespace Formulary

namespace Node

variable (callee : String) (calls : Nat)

end Node

section

variable {l : Library} {callee : String}

end

namespace Workspace

variable {w : Workspace} {callee : String}

end Workspace

end Formulary
