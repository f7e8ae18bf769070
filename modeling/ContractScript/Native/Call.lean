/-
What the built-in functions do. They are given as many arguments as they take,
and a fault of theirs is located by the call.
-/
import ContractScript.Machine

set_option autoImplicit false

namespace ContractScript.Native

open EvalM

/-- Fails because a value is not what was wanted. -/
def reject {α : Type} (depth : Nat) (wanted : Wanted) (v : Value) : EvalM α := do
  failHere (.unexpected wanted (← shown depth v))

/-- Reads a line after a prompt; nil at the end of the input. -/
def readLine (depth : Nat) (prompt : Value) : EvalM Value := do
  note (.prompt (← shown depth prompt))
  let m ← get
  match m.host.typed with
  | [] => return .nil
  | typed :: rest =>
    set { m with host := { m.host with typed := rest } }
    match typed with
    | .line text => return .text text
    | .interrupt => throw (.defect .interrupted)

/-- The number of items, entries or characters. -/
def length (depth : Nat) (v : Value) : EvalM Value := do
  let s := (← get).store
  let count (n : Nat) : Value := .num (Number.ofInt n)
  match v with
  | .list id => return count (s.items id).size
  | .map id => return count (s.content id).size
  | .text t => return count t.length
  | other => reject depth .collection other

/-- A map, or a fault. -/
def expectMap (depth : Nat) : Value → EvalM MapId
  | .map id => return id
  | other => reject depth .map other

/-- A text, or a fault. -/
def expectText (depth : Nat) (wanted : Wanted) : Value → EvalM String
  | .text t => return t
  | other => reject depth wanted other

/-- Fails with the reason why a file could not be opened. -/
def fileProblem {α : Type} (cause : String → Cause) : FileTree.Problem → EvalM α
  | .refused reason => failHere (cause reason.message)
  | .nullByte => throw (.defect .nullByte)
  | .undecodable m => throw (.defect (.undecodable m))

/-- Reads a file. -/
def readFile (setup : Setup) (path : String) : EvalM Value := do
  match (← get).host.read setup.settings.directory path with
  | .ok text => return .text text
  | .error problem => fileProblem .readRefused problem

/-- Writes a file. -/
def writeFile (setup : Setup) (path content : String) : EvalM Value := do
  match (← get).host.write setup.settings.directory path content with
  | .ok host =>
    modify fun m => { m with host := host }
    return .nil
  | .error problem => fileProblem .writeRefused problem

/-- Fetches a text over the network. -/
def fetch (setup : Setup) (url : String) : EvalM Value := do
  let policy : Http.Policy := ⟨setup.settings.httpRetries, setup.settings.httpBackoff⟩
  let m ← get
  let (result, network) := m.host.network.send ⟨"GET", url, []⟩ policy
  set { m with host := { m.host with network := network } }
  match result with
  | some (.ok body) => return .text body
  | some (.error (.pause e)) => throw (.defect (.pause e))
  | some (.error failure) => failHere (.requestFailed failure.message)
  | none => return .nil

/-- The next number of the clock. -/
def readClock : EvalM Value :=
  modifyGet fun m =>
    let (x, supply) := m.host.clock.next
    (.num x, { m with host := { m.host with clock := supply } })

/-- The next random number. -/
def drawRandom : EvalM Value :=
  modifyGet fun m =>
    let (x, supply) := m.host.random.next
    (.num x, { m with host := { m.host with random := supply } })

/-- Calls a built-in function. -/
def call (setup : Setup) (depth : Nat) (f : Native) (arguments : List Value) : EvalM Value := do
  match f, arguments with
  | .input, [prompt] => readLine depth prompt
  | .len, [v] => length depth v
  | .clock, [] => readClock
  | .random, [] => drawRandom
  | .keys, [v] =>
    let id ← expectMap depth v
    newList (((← get).store.content id).values.map Entry.key).toArray
  | .values, [v] =>
    let id ← expectMap depth v
    newList (((← get).store.content id).values.map Entry.value).toArray
  | .put, [target, key, value] =>
    let id ← expectMap depth target
    let k ← keyOf depth key
    modify fun m => { m with store := m.store.put id k ⟨key, value⟩ }
    return target
  | .append, [target, value] =>
    match target with
    | .list id =>
      modify fun m => { m with store := m.store.push id value }
      return target
    | other => reject depth .list other
  | .read, [path] =>
    let path ← expectText depth .path path
    readFile setup path
  | .write, [path, content] =>
    let path ← expectText depth .path path
    let content ← expectText depth .content content
    writeFile setup path content
  | .http, [url, method] =>
    let url ← expectText depth .url url
    match method with
    | .text "GET" => fetch setup url
    | other => reject depth .get other
  | _, _ => return .nil

end ContractScript.Native
