/-
The program itself: collects the surroundings, lets the command line decide, and
carries out what it decided.

The command line is a function of what was typed. When it asks for a line that
has not been typed yet, everything up to the question is shown, a line is read,
and the command line is asked again with one line more; what it showed before is
then a beginning of what it shows now.
-/
import ContractScript.Cli
import ContractScript.Settings.Document

set_option autoImplicit false

namespace ContractScript.Main

/-- The steps of an absolute path. -/
def stepsOf (path : String) : List String :=
  (FileTree.stepsOf path).filter (· != "")

/-- Adds an entry of a directory, and everything below it. What cannot be read
is left out. -/
partial def collect (tree : FileTree) (entry : IO.FS.DirEntry) : IO FileTree := do
  let steps := stepsOf entry.path.toString
  try
    if ← entry.path.isDir then
      let entries ← entry.path.readDir
      entries.foldlM collect (tree.insert steps .directory)
    else
      return tree.insert steps (.file (← IO.FS.readBinFile entry.path))
  catch _ => return tree

/-- The files below the current directory and below the directories of the
scripts that are named. -/
def snapshot (arguments : List String) : IO FileTree := do
  let current ← IO.currentDir
  let mut tree := FileTree.empty.insert (stepsOf current.toString) .directory
  for entry in ← current.readDir do
    tree ← collect tree entry
  for argument in arguments do
    if !Cli.isFlag argument then
      let dir := Cli.directoryOf ⟨tree, current.toString, "", [], ⟨[], 0⟩, ⟨[], 0⟩, ⟨[], [], [], .byClock⟩⟩
        (Path.tidy argument)
      if (tree.node? (stepsOf dir)).isNone then
        try
          for entry in ← (current / dir).readDir do
            tree ← collect tree entry
        catch _ => pure ()
  return tree

/-- What the program is built on here. The limits are such that ordinary programs
stay below them. -/
def platform : Cli.Platform :=
  ⟨Document.read, Report.filled, Limits.standard, 1000⟩

/-- The variables of the environment that matter. -/
def environment : IO (List (String × String)) := do
  let names := ["TAHINI_DEBUG", "TAHINI_HTTP_TIMEOUT", "TAHINI_HTTP_RETRIES"]
  names.filterMapM fun name => do
    return (← IO.getEnv name).map fun value => (name, value)

/-- Random numbers below one. -/
def randomNumbers (count : Nat) : IO (List Float) :=
  (List.range count).mapM fun _ => do
    return Float.ofScientific (← IO.rand 0 999999999999) true 12

/-- Shows events. -/
def showEvents (events : List Event) : IO Unit := do
  for e in events do
    match e.written with
    | (.output, text) =>
      IO.print text
      (← IO.getStdout).flush
    | (.error, text) => IO.eprint text

/-- The number of events up to the question after `answered` lines; `none` if
there is no such question. -/
def questionEnd? (answered : Nat) (events : List Event) : Option Nat :=
  let questions := events.zipIdx.filter fun e =>
    match e.1 with
    | .prompt _ => true
    | _ => false
  (questions[answered]?).map fun q => q.2 + 1

/-- A line without its end. -/
def chomp (line : String) : String :=
  String.ofList ((line.toList.reverse.dropWhile fun c => c == '\n' || c == '\r').reverse)

/-- Asks the command line, with as many lines as it wants and there are. -/
partial def interact (call : Cli.Invocation) (typed : List Typed) (shown : Nat) :
    IO Cli.Result := do
  let result := Cli.runGuarded { call with host := { call.host with typed := typed } }
  match questionEnd? typed.length result.events with
  | none =>
    showEvents (result.events.drop shown)
    return result
  | some question =>
    showEvents ((result.events.take question).drop shown)
    let line ← (← IO.getStdin).getLine
    if line.isEmpty then
      showEvents (result.events.drop question)
      return result
    else
      interact call (typed ++ [.line (chomp line)]) question

/-- Writes the files that changed. -/
def store (before after : FileTree) : IO Unit := do
  for (steps, bytes) in after.files do
    let changed := match before.node? steps with
      | some (.file old) => old != bytes
      | _ => true
    if changed then
      IO.FS.writeBinFile ("/" ++ "/".intercalate steps) bytes

end ContractScript.Main

open ContractScript in
/-- Runs the command line and ends with its exit code. -/
def main (arguments : List String) : IO UInt32 := do
  let files ← Main.snapshot arguments
  let now := Float.ofScientific (← IO.monoMsNow) true 3
  let host : Host :=
    { files := files
      current := (← IO.currentDir).toString
      home := (← IO.getEnv "HOME").getD "/"
      typed := []
      clock := ⟨[now], 0⟩
      random := ⟨← Main.randomNumbers 1000, 0⟩
      network := ⟨[.failure "network access is not available"], [], [], .byClock⟩ }
  let call : Cli.Invocation := ⟨arguments, ← Main.environment, host, Main.platform⟩
  let result ← Main.interact call [] 0
  Main.store files result.host.files
  match result.ending with
  | .exit code => return code.toUInt32
  | .surprise s =>
    IO.eprintln s.message
    return 1
  | .unfinished => return 1
