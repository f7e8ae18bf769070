/-
Sessions. A session runs one script after another on one state, so that what a
script defines is there for the next.
-/
import ContractScript.Eval
import ContractScript.Report

set_option autoImplicit false

namespace ContractScript

open EvalM

/-! ## Programs at the top level -/

/-- Runs a statement at the top level. An expression yields its value, which a
read-eval-print session also shows; any other statement yields nil. -/
def runTop (setup : Setup) (s : Stmt) : EvalM Value := do
  match s with
  | .expression e =>
    let v ← evaluate setup setup.limits.depth e
    if setup.settings.repl then
      emit .error (← shown setup.limits.depth v)
    return v
  | other =>
    let _ ← execute setup setup.limits.depth other
    return .nil

/-- Runs statements; the value is that of the last. -/
def runAll (setup : Setup) (last : Value) : Program → EvalM Value
  | [] => return last
  | s :: rest => do
    let v ← runTop setup s
    runAll setup v rest

/-- Reports the pending test results, if there are any. -/
def reportTests (setup : Setup) : EvalM Unit := do
  let results := (← get).tests
  if results.isEmpty then return ()
  emit .output (Report.ofTests setup.render results)
  modify fun m => { m with tests := [] }

/-- Runs a program, then reports its tests. A fault ends the program and is
reported by `describe`; a defect leaves the test results pending. -/
def interpret (setup : Setup) (describe : Fault → String) (program : Program) :
    EvalM (Except Fault Value) := do
  let result ← catchFault (runAll setup .nil program)
  match result with
  | .ok _ => pure ()
  | .error f =>
    trace setup ("runtime error: " ++ f.cause.message)
    emit .error (describe f)
  reportTests setup
  return result

/-! ## Sessions -/

/-- A session: what is fixed, the state, and the name of the latest script that
had one. -/
structure Session where
  setup : Setup
  machine : Machine
  file : Option String

/-- How a script ended. -/
inductive Outcome where
  | success (value : Value)
  /-- The script is not well formed; nothing was run. -/
  | malformed (diagnostics : List Diagnostic)
  | fault (fault : Fault) (report : String)
  | defect (defect : Defect)
  /-- The script goes on beyond the rounds for which it is followed. -/
  | unfinished

namespace Session

/-- The first scope of a state, which holds the globals. -/
def globals : ScopeId := 0

/-- A state before anything was run. -/
def start (setup : Setup) (host : Host) : Machine :=
  { store := (Store.empty.newRoot setup.natives).2
    scope := globals
    frames := []
    directory := setup.settings.directory
    importing := []
    tests := []
    events := []
    host := host }

/-- A new session. -/
def new (setup : Setup) (host : Host) : Session :=
  ⟨setup, start setup host, none⟩

/-- The usual setup. -/
def standard (settings : Settings) : Setup :=
  ⟨settings, Module.standard, Native.all, Limits.standard, Report.filled⟩

/-- The wording of a defect. -/
def defectText (d : Defect) : String :=
  "InternalError: " ++ d.message

/-- Runs a program whose source is known. -/
def runProgram (session : Session) (script : Report.Script) (program : Program) :
    Outcome × Machine :=
  match interpret session.setup (Report.ofFault script) program session.machine with
  | .ok (.ok v) m => (.success v, m)
  | .ok (.error f) m => (.fault f (Report.ofFault script f), m)
  | .error (.defect .interrupted) m => (.defect .interrupted, m)
  | .error (.defect d) m =>
    let traced := if session.setup.settings.debug then Event.dump :: m.events else m.events
    (.defect d, { m with events := .effect .error (defectText d) :: traced })
  | .error (.fault f) m => (.fault f (Report.ofFault script f), m)
  | .error .unfinished m => (.unfinished, m)

/-- Runs a script. The events of earlier scripts are forgotten; a name that is
given stays for later scripts. -/
def handle (session : Session) (source : String) (name : Option String) : Outcome × Session :=
  let file := name <|> session.file
  let fresh := { session.machine with events := [], frames := [] }
  let (program, diagnostics) := Program.ofSource session.setup.settings.testMode file source
  if diagnostics.isEmpty then
    let (outcome, m) := runProgram { session with machine := fresh } ⟨source, file⟩ program
    (outcome, { session with machine := m, file := file })
  else
    let m := { fresh with events := [.effect .error (Diagnostic.report diagnostics)] }
    (.malformed diagnostics, { session with machine := m, file := file })

/-- The events of the latest script in order. -/
def events (session : Session) : List Event :=
  session.machine.events.reverse

end Session

/-- The formatted error of an outcome; empty on success. -/
def Outcome.errorText : Outcome → String
  | .success _ => ""
  | .malformed diagnostics => Diagnostic.report diagnostics
  | .fault _ report => report
  | .defect d => Session.defectText d
  | .unfinished => ""

/-- The place that an outcome points at. -/
def Outcome.place? : Outcome → Option Place
  | .success _ => none
  | .malformed diagnostics => diagnostics.head?.map Diagnostic.place
  | .fault f _ => f.lexeme.map Lexeme.place
  | .defect _ => none
  | .unfinished => none

end ContractScript
