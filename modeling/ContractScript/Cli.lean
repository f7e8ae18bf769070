/-
The command line: run a script, show its outline, or read and run lines one
after another. It is a function of the arguments and of the surroundings; what
it shows is a list of events.
-/
import ContractScript.Program.Outline
import ContractScript.Session
import ContractScript.Settings.Load

set_option autoImplicit false

namespace ContractScript

/-- What an event writes, and where. -/
def Event.written : Event → Channel × String
  | .effect channel text => (channel, text ++ "\n")
  | .trace text => (.error, "[DBG] " ++ text ++ "\n")
  | .dump => (.error, "[DBG] <traceback>\n")
  | .prompt text => (.output, text)

namespace Cli

/-- How the program is to be used. -/
def usage : String := "Usage: tahini [script] [--test] [--ast]"

/-- The program was not used as it should be, or its script cannot be read. -/
def exitUsage : Nat := 64

/-- The script is not well formed. -/
def exitMalformed : Nat := 65

/-- The script failed. -/
def exitFailed : Nat := 70

/-- What a script file or its settings can do that the command line does not
expect. -/
inductive Surprise where
  | nullByte
  | undecodable (m : Text.Utf8.Malformed)
  | settings (e : Settings.LoadError)
  /-- The outline of a script is given up for its depth. -/
  | tooDeep
  | interrupted
deriving Repr, DecidableEq

/-- The wording of a surprise. -/
def Surprise.message : Surprise → String
  | .nullByte => Defect.message .nullByte
  | .undecodable m => m.message
  | .settings e => e.message
  | .tooDeep => Defect.message .tooDeep
  | .interrupted => ""

/-- How the program ends. -/
inductive Ending where
  | exit (code : Nat)
  | surprise (s : Surprise)
  /-- It goes on beyond the rounds for which it is followed. -/
  | unfinished
deriving Repr, DecidableEq

/-- What the program did: what it showed, how it ended, and the surroundings as
it left them. -/
structure Result where
  events : List Event
  ending : Ending
  host : Host

/-- What the program is built on. -/
structure Platform where
  /-- The reader of settings files. -/
  read : Settings.Reader
  /-- The renderer of reports on tests. -/
  render : Renderer
  /-- The limits of a run. -/
  limits : Limits
  /-- How many calls can be in progress in each other when an outline is
  written: what is left of the limit to recursion. -/
  calls : Nat

/-- What the program is given. -/
structure Invocation where
  arguments : List String
  environment : List (String × String)
  host : Host
  platform : Platform

/-- What stays fixed during a run with settings. -/
def Invocation.setup (call : Invocation) (settings : Settings) : Setup :=
  { Session.standard settings with
    limits := call.platform.limits
    render := call.platform.render }

/-- Ends with a line of complaint. -/
def complain (host : Host) (code : Nat) (text : String) : Result :=
  ⟨[.effect .error text], .exit code, host⟩

/-- Ends with a surprise. -/
def surprised (host : Host) (s : Surprise) : Result :=
  ⟨[], .surprise s, host⟩

/-- Loads settings and goes on with them. -/
def withSettings (call : Invocation) (dir : String) (overrides : List (String × Datum))
    (next : Settings → Result) : Result :=
  match Settings.load call.platform.read call.host call.environment (some dir) overrides with
  | .ok settings => next settings
  | .error e =>
    if e.isExplained then complain call.host exitUsage ("Error: " ++ e.message)
    else surprised call.host (.settings e)

/-- Reads a script and goes on with its text and its tidy path. -/
def withScript (call : Invocation) (argument : String) (next : String → String → Result) :
    Result :=
  let path := Path.tidy argument
  match call.host.files.readText call.host.current path with
  | .ok source => next source path
  | .error (.refused _) =>
    complain call.host exitUsage ("Error: file not found: " ++ argument)
  | .error .nullByte => surprised call.host .nullByte
  | .error (.undecodable m) => surprised call.host (.undecodable m)

/-- The directory of a script. -/
def directoryOf (host : Host) (path : String) : String :=
  Path.canonical (Path.within host.current (Path.parent path))

/-- Shows the outline of a script without running it. -/
def showOutline (call : Invocation) (argument : String) : Result :=
  withScript call argument fun source path =>
    withSettings call (directoryOf call.host path) [("test_mode", .bool true)] fun settings =>
      let (program, diagnostics) := Program.ofSource settings.testMode (some path) source
      if !diagnostics.isEmpty then
        complain call.host exitMalformed (Diagnostic.report diagnostics)
      else if program.outlineCalls > call.platform.calls then surprised call.host .tooDeep
      else ⟨[.effect .output (program.outline 2)], .exit 0, call.host⟩

/-- How the program ends after a script. -/
def endingOf : Outcome → Ending
  | .success _ => .exit 0
  | .malformed _ => .exit exitMalformed
  | .fault _ _ => .exit exitFailed
  | .defect .interrupted => .surprise .interrupted
  | .defect _ => .exit exitFailed
  | .unfinished => .unfinished

/-- Runs a script. -/
def runScript (call : Invocation) (argument : String) (tests : Bool) : Result :=
  withScript call argument fun source path =>
    let overrides := if tests then [("test_mode", Datum.bool true)] else []
    withSettings call (directoryOf call.host path) overrides fun settings =>
      let session := Session.new (call.setup settings) call.host
      let (outcome, session) := session.handle source (some path)
      ⟨session.events, endingOf outcome, session.machine.host⟩

/-- What was typed at the prompt, and the session after it was taken. -/
def takeTyped (session : Session) : Option Typed × Session :=
  match session.machine.host.typed with
  | [] => (none, session)
  | typed :: rest =>
    let m := session.machine
    (some typed, { session with machine := { m with host := { m.host with typed := rest } } })

/-- Reads and runs lines until the input ends or the user leaves. Every round
takes a line, so there are no more rounds than lines and the end. -/
def replRounds (session : Session) : Nat → List Event × Ending × Session
  | 0 => ([], .exit 0, session)
  | rounds + 1 =>
    let more (shown : List Event) (session : Session) : List Event × Ending × Session :=
      let (events, ending, session) := replRounds session rounds
      (.prompt "> " :: shown ++ events, ending, session)
    match takeTyped session with
    | (none, session) => ([.prompt "> ", .effect .output "\nExiting."], .exit 0, session)
    | (some .interrupt, session) => more [.effect .output ""] session
    | (some (.line text), session) =>
      let line := Text.strip text
      if line.isEmpty then more [] session
      else if line == "exit" then ([.prompt "> "], .exit 0, session)
      else
        let (outcome, session) := session.handle line none
        match outcome with
        | .defect .interrupted => (.prompt "> " :: session.events, .surprise .interrupted, session)
        | .unfinished => (.prompt "> " :: session.events, .unfinished, session)
        | _ => more session.events session

/-- Greets the user, then reads and runs lines. -/
def repl (call : Invocation) : Result :=
  let greeting := "Welcome to Tahini. Type 'exit' or press Ctrl+D to quit."
  let result := withSettings call call.host.current [("repl", .bool true)] fun settings =>
    let session := Session.new (call.setup settings) call.host
    let (events, ending, session) := replRounds session (call.host.typed.length + 1)
    ⟨events, ending, session.machine.host⟩
  { result with events := .effect .output greeting :: result.events }

/-- Whether an argument is a flag. -/
def isFlag (argument : String) : Bool :=
  argument.toList.head? == some '-'

/-- The command line. -/
def run (call : Invocation) : Result :=
  let flags := call.arguments.filter isFlag
  let scripts := call.arguments.filter fun a => !isFlag a
  if flags.any (fun f => f != "--test" && f != "--ast") then complain call.host exitUsage usage
  else
    match scripts with
    | [] => if flags.isEmpty then repl call else complain call.host exitUsage usage
    | [script] =>
      if flags.contains "--ast" then showOutline call script
      else runScript call script (flags.contains "--test")
    | _ => complain call.host exitUsage usage

/-- The command line as a program of its own, which an interrupt ends quietly. -/
def runGuarded (call : Invocation) : Result :=
  let result := run call
  match result.ending with
  | .surprise .interrupted =>
    { result with events := result.events ++ [.effect .output "\nExiting."], ending := .exit 0 }
  | _ => result

end Cli

end ContractScript
