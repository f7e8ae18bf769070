/-
The functions that are built in. Those with a plain name are for programs;
those with an underscore serve the bundled modules.
-/

set_option autoImplicit false

namespace ContractScript

/-- The built-in functions. -/
inductive Native where
  | input
  | len
  | clock
  | keys
  | values
  | put
  | append
  | read
  | write
  | random
  | http
deriving Repr, DecidableEq

namespace Native

/-- The name under which programs find a built-in function. -/
def name : Native → String
  | .input => "input"
  | .len => "len"
  | .clock => "clock"
  | .keys => "_keys"
  | .values => "_values"
  | .put => "_put"
  | .append => "_append"
  | .read => "_read"
  | .write => "_write"
  | .random => "_random"
  | .http => "_http"

/-- The number of arguments of a built-in function. -/
def arity : Native → Nat
  | .input => 1
  | .len => 1
  | .clock => 0
  | .keys => 1
  | .values => 1
  | .put => 3
  | .append => 2
  | .read => 1
  | .write => 2
  | .random => 0
  | .http => 2

/-- All built-in functions. -/
def all : List Native :=
  [.input, .len, .clock, .keys, .values, .put, .append, .read, .write, .random, .http]

end Native

end ContractScript
