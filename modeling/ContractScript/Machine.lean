/-
The state of a run and the steps that change it.

A step ends with a result or a failure, and in both cases with a state: what a
program has done before it fails stays done. Where a step changes what holds
only for its duration (the current scope, the directory of the module being
imported) it goes through `restoring`, which repairs the state however the step
ends.
-/
import ContractScript.Host
import ContractScript.Scope
import ContractScript.Settings
import ContractScript.Value.Display

set_option autoImplicit false

namespace ContractScript

/-- Where a program writes to. -/
inductive Channel where
  | output
  | error
deriving Repr, DecidableEq

/-- What can be observed of a run, in order. -/
inductive Event where
  /-- A line written by the program or about it. -/
  | effect (channel : Channel) (text : String)
  /-- A line of the trace. -/
  | trace (text : String)
  /-- A dump of the computation that a defect interrupted, in the trace. -/
  | dump
  /-- A prompt shown before input is read. -/
  | prompt (text : String)
deriving Repr, DecidableEq

/-- How a test ended; a failed one has the message of its fault. -/
structure TestResult where
  name : String
  line : Nat
  failure : Option String
deriving Repr, DecidableEq

/-- A test result as a row of a report. -/
structure TestRow where
  status : String
  line : Nat
  name : String
  message : Option String
deriving Repr, DecidableEq

/-- What fills a template with rows. -/
abbrev Renderer := String → List TestRow → String

/-- How far a run may go: levels of nesting, and the rounds of one loop for which
it is followed. -/
structure Limits where
  depth : Nat
  rounds : Nat
deriving Repr, DecidableEq

/-- Limits that ordinary programs stay below. -/
def Limits.standard : Limits := ⟨1000, 1000000000000000000⟩

/-- What stays fixed during a run. -/
structure Setup where
  settings : Settings
  loaders : List Module.Loader
  natives : List Native
  limits : Limits
  /-- The renderer of reports on tests. -/
  render : Renderer

/-- The state of a run. -/
structure Machine where
  store : Store
  /-- The current scope. -/
  scope : ScopeId
  /-- The calls in progress, innermost first. -/
  frames : List Frame
  /-- The directory that relative imports are seen from. -/
  directory : Option String
  /-- The modules being imported, innermost first. -/
  importing : List String
  /-- Test results that have not been reported. -/
  tests : List TestResult
  /-- What has been observed, latest first. -/
  events : List Event
  host : Host

/-- A step of a run. -/
abbrev EvalM := EStateM Failure Machine

/-- How a statement ends. -/
inductive Signal where
  /-- The next statement follows. -/
  | next
  /-- The innermost loop ends. -/
  | leave
  /-- The innermost call ends with a value. -/
  | yield (value : Value)
deriving Repr

namespace EvalM

/-- Runs a step and repairs the state afterwards, however the step ended. -/
def restoring {α : Type} (repair : Machine → Machine) (step : EvalM α) : EvalM α := fun m =>
  match step m with
  | .ok a m' => .ok a (repair m')
  | .error e m' => .error e (repair m')

/-- Runs a step in another scope. -/
def inScope {α : Type} (scope : ScopeId) (step : EvalM α) : EvalM α := fun m =>
  let outer := m.scope
  restoring (fun m' => { m' with scope := outer }) step { m with scope := scope }

/-- The state in which a step ends, whether it fails or not. -/
def finalState {α : Type} (step : EvalM α) (m : Machine) : Machine :=
  match step m with
  | .ok _ m' => m'
  | .error _ m' => m'

theorem finalState_restoring {α : Type} (repair : Machine → Machine) (step : EvalM α)
    (m : Machine) : finalState (restoring repair step) m = repair (finalState step m) := by
  unfold finalState restoring
  cases step m <;> rfl

/-- A step in another scope leaves the current scope as it was. -/
theorem scope_finalState_inScope {α : Type} (scope : ScopeId) (step : EvalM α) (m : Machine) :
    (finalState (inScope scope step) m).scope = m.scope := by
  change (finalState (restoring (fun m' => { m' with scope := m.scope }) step)
    { m with scope := scope }).scope = m.scope
  rw [finalState_restoring]

/-- Runs a step and turns a fault into a result. -/
def catchFault {α : Type} (step : EvalM α) : EvalM (Except Fault α) := fun m =>
  match step m with
  | .ok a m' => .ok (.ok a) m'
  | .error (.fault f) m' => .ok (.error f) m'
  | .error (.defect d) m' => .error (.defect d) m'
  | .error .unfinished m' => .error .unfinished m'

/-- Fails at a lexeme. -/
def failAt {α : Type} (lexeme : Lexeme) (cause : Cause) : EvalM α :=
  throw (.at lexeme cause)

/-- Fails; the enclosing call says where. -/
def failHere {α : Type} (cause : Cause) : EvalM α :=
  throw (.unlocated cause)

/-- The answer of a question that may nest too deeply. -/
def orTooDeep {α : Type} : Option α → EvalM α
  | some a => return a
  | none => throw (.defect .tooDeep)

/-! ## Observations -/

/-- Notes an event. -/
def note (e : Event) : EvalM Unit :=
  modify fun m => { m with events := e :: m.events }

/-- Writes a line. -/
def emit (channel : Channel) (text : String) : EvalM Unit :=
  note (.effect channel text)

/-- Writes a line of the trace, if there is one. -/
def trace (setup : Setup) (text : String) : EvalM Unit :=
  if setup.settings.debug then note (.trace text) else pure ()

/-! ## The store -/

/-- Changes the store and yields what the change yields. -/
def onStore {α : Type} (f : Store → α × Store) : EvalM α :=
  modifyGet fun m =>
    let (a, store) := f m.store
    (a, { m with store := store })

/-- Makes a list. -/
def newList (items : Array Value) : EvalM Value := do
  return .list (← onStore fun s => s.newList items)

/-- Makes a scope. -/
def newScope (enclosing : Option ScopeId) : EvalM ScopeId :=
  onStore fun s => s.newScope enclosing

/-- Binds a name in a scope. -/
def define (scope : ScopeId) (name : String) (v : Value) : EvalM Unit :=
  modify fun m => { m with store := m.store.define scope name v }

/-- Binds a name in the current scope. -/
def defineHere (name : String) (v : Value) : EvalM Unit :=
  modify fun m => { m with store := m.store.define m.scope name v }

/-- Makes a scope of its own with the built-in functions in it. -/
def newRoot (setup : Setup) : EvalM ScopeId :=
  onStore fun s => s.newRoot setup.natives

/-! ## Questions about values

Going down into a nested value takes levels of the run as well. What matters is
that a value has some number of them that is enough; how many a level of the value
takes is a rough figure, larger for showing than for comparing. -/

/-- A value as text. -/
def shown (depth : Nat) (v : Value) : EvalM String := do
  orTooDeep ((← get).store.show? (depth / 3 + 1) false v)

/-- Whether two values are equal. -/
def same (depth : Nat) (a b : Value) : EvalM Bool := do
  orTooDeep ((← get).store.equal? (depth / 2 + 1) a b)

/-- The key of a value. -/
def keyOf (depth : Nat) (v : Value) : EvalM Key := do
  orTooDeep ((← get).store.key? (depth / 2 + 1) v)

end EvalM

end ContractScript
