/-
What surrounds a run: files, typed input, the clock, random numbers and the
network. All of it is a value, so a run is a function of it; what a run does to
its surroundings is what is different afterwards.
-/
import ContractScript.Http
import ContractScript.Module

set_option autoImplicit false

namespace ContractScript

/-- Numbers that are handed out in turn, from the start again after the last. -/
structure Supply where
  numbers : List Float
  used : Nat
deriving Repr

/-- The next number. -/
def Supply.next (s : Supply) : Float × Supply :=
  ((s.numbers[s.used % s.numbers.length]?).getD (Number.zero false), { s with used := s.used + 1 })

/-- An attempt to read a line: the line, or an interrupt. -/
inductive Typed where
  | line (text : String)
  | interrupt
deriving Repr, DecidableEq

/-- The network: responses in the order in which they are given, the last for
ever; what has been sent and how long was waited; and what waits. -/
structure Network where
  responses : List Http.Response
  sent : List Http.Request
  pauses : List Http.Backoff
  wait : Http.Waiting

/-- The response to a given request. -/
def Network.response (n : Network) (index : Nat) : Http.Response :=
  match n.responses[index]? with
  | some r => r
  | none => n.responses.getLast?.getD (.failure "no response scripted")

/-- Sends a request and notes what happened. -/
def Network.send (n : Network) (request : Http.Request) (policy : Http.Policy) :
    Option (Except Http.Failure String) × Network :=
  let start := n.sent.length
  let exchange := Http.send request policy n.wait fun tries => n.response (start + tries)
  (exchange.result,
   { n with sent := n.sent ++ List.replicate exchange.tries request
            pauses := n.pauses ++ exchange.pauses })

/-- The surroundings of a run. -/
structure Host where
  files : FileTree
  current : String
  home : String
  typed : List Typed
  clock : Supply
  random : Supply
  network : Network

/-- What module loaders need to know. -/
def Host.site (h : Host) : Module.Site := ⟨h.files, h.current, h.home⟩

/-- The path that a file operation of a script means: under the home directory,
or seen from the script's directory. -/
def Host.scriptPath (h : Host) (base : Option String) (path : String) :
    Except FileTree.Problem String :=
  if path.toList.head? == some '~' then
    match Path.expandHome? h.home path with
    | some full => .ok full
    | none => .error .nullByte
  else if Path.isAbsolute path.toList then .ok (Path.normalize path)
  else
    let start := match base with
      | some dir => if dir.isEmpty then h.current else dir
      | none => h.current
    .ok (Path.normalize (Path.within start path))

/-- Reads a text file for a script. -/
def Host.read (h : Host) (base : Option String) (path : String) :
    Except FileTree.Problem String :=
  match h.scriptPath base path with
  | .error problem => .error problem
  | .ok full => h.files.readText h.current full

/-- Writes a text file for a script. -/
def Host.write (h : Host) (base : Option String) (path content : String) :
    Except FileTree.Problem Host :=
  match h.scriptPath base path with
  | .error problem => .error problem
  | .ok full =>
    match h.files.writeText h.current full content with
    | .ok files => .ok { h with files := files }
    | .error problem => .error problem

end ContractScript
