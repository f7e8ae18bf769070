/-
What comes of a request that a program makes.

A program asks for a text over the network and says nothing about retries: their number and the
first pause are settings, and the settings take any integer and any number. If the number of retries
is not negative, something is sent, and the program gets the body of a successful response or a fault
with the failure of the last try; only a pause that cannot be made ends it in another way. If it is
negative, nothing is sent and the program gets nil, as if the call had nothing to say.
-/
import ContractScript.Proofs.Host.Retrying
import ContractScript.Proofs.Run.Trail
import ContractScript.Settings.Document

set_option autoImplicit false

namespace ContractScript

open EvalM Http

namespace Native

variable {setup : Setup} {url : String} {m : Machine}

/-- What stays fixed while a call for a text is tried out. -/
def plain (settings : Settings) : Setup :=
  ⟨settings, [], [.http], ⟨8, 8⟩, Report.filled⟩

end Native

end ContractScript
