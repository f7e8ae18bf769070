/-
Calls and imports said with what was there before.

A call pops the topmost frame and an import discards the name of its module. Since
what runs in between is balanced, this is to put back the calls that were in
progress and the modules that were being imported. What follows is about runs and
says it in this way, which needs no look at the state in which the step has ended.
-/
import ContractScript.Proofs.Run.Restoration

set_option autoImplicit false

namespace ContractScript

namespace EvalM

variable {α : Type}

/-- Runs a step as a call in progress and puts back the calls from before. -/
def inCall (frame : Frame) (close : Lexeme) (step : EvalM α) : EvalM α := fun m =>
  let outer := m.frames
  let frames := frame :: outer
  match step { m with frames := frames } with
  | .ok a m' => .ok a { m' with frames := outer }
  | .error e m' =>
    let located := match e with
      | .fault f =>
        .fault ⟨f.cause, f.lexeme <|> some close, f.stack <|> some frames.reverse⟩
      | .defect .tooDeep => .fault ⟨.stackOverflow, some close, some frames.reverse⟩
      | other => other
    .error located { m' with frames := outer }

/-- Runs a step while a module is being imported and puts back the modules from before. -/
def inImport (name : String) (step : EvalM α) : EvalM α := fun m =>
  let outer := m.importing
  let directory := m.directory
  restoring (fun m' => { m' with importing := outer, directory := directory }) step
    { m with importing := name :: outer }

/-- Popping the frame of a step that is balanced puts back the calls from before. -/
theorem asCall_eq {frame : Frame} {close : Lexeme} {step : EvalM α}
    (balanced : Keeps Machine.frames step) : asCall frame close step = inCall frame close step := by
  funext m
  unfold asCall inCall
  dsimp only
  cases ran : step { m with frames := frame :: m.frames } with
  | ok a m' =>
    have same : m'.frames = frame :: m.frames := balanced.of_ok ran
    simp only [same, List.tail_cons]
  | error e m' =>
    have same : m'.frames = frame :: m.frames := balanced.of_error ran
    simp only [same]
    rfl

/-- Discarding the name of a module that was not being imported puts back the modules from
before. -/
theorem asImport_eq {name : String} {step : EvalM α} {m : Machine} (fresh : name ∉ m.importing)
    (balanced : Keeps Machine.importing step) : asImport name step m = inImport name step m := by
  unfold asImport inImport restoring
  dsimp only
  cases ran : step { m with importing := name :: m.importing } with
  | ok a m' =>
    have same : m'.importing = name :: m.importing := balanced.of_ok ran
    simp only [same, discard_added fresh]
  | error e m' =>
    have same : m'.importing = name :: m.importing := balanced.of_error ran
    simp only [same, discard_added fresh]

/-- A call ends where its step does, with the calls from before. -/
theorem finalState_inCall (frame : Frame) (close : Lexeme) (step : EvalM α) (m : Machine) :
    finalState (inCall frame close step) m
      = { finalState step { m with frames := frame :: m.frames } with frames := m.frames } := by
  unfold finalState inCall
  dsimp only
  cases step { m with frames := frame :: m.frames } <;> rfl

end EvalM

open EvalM

/-- What calling a value does, one level above what the call itself does. -/
theorem callValue_succ (setup : Setup) (depth : Nat) (place : Place) (f : Value)
    (arguments : List Value) :
    callValue setup (depth + 1) place f arguments = (do
      match (← get).store.callable? f with
      | none => failAt (closeLexeme place) .notCallable
      | some (name, arity) =>
        if arguments.length != arity then
          failAt (closeLexeme place) (.wrongArity arity arguments.length)
        else
          inCall ⟨name, place⟩ (closeLexeme place) (invoke setup depth f arguments)) := by
  have balanced : Keeps Machine.frames (invoke setup depth f arguments) :=
    ((evaluationKeeps setup depth).invoke f arguments).coarsen Surroundings.frames
  simp only [← asCall_eq balanced]
  rfl

/-- What importing a module does, one level above its declarations. -/
theorem importModule_succ (setup : Setup) (depth : Nat) (path : String) (place : Place)
    (space : Option Lexeme) :
    importModule setup (depth + 1) path place space = (do
      let source ← findModule setup (pathLexeme path place) path
      trace setup ("import: " ++ path ++ " -> " ++ source.name)
      inImport source.name do
        let declarations ← moduleDeclarations (pathLexeme path place) path source
        let target ← importTarget setup space
        enterDirectory source.directory
        let _ ← inScope target (EvalM.sequence (execute setup depth) declarations)
        return ()) := by
  funext m
  rw [importModule]
  cases found : findModule setup (pathLexeme path place) path m with
  | error e m' => rw [bind_error found, bind_error found]
  | ok source m' =>
    rw [bind_ok found, bind_ok found]
    obtain ⟨-, fresh, rfl⟩ := findModule_ok found
    cases traced : trace setup ("import: " ++ path ++ " -> " ++ source.name) m' with
    | error e m'' => rw [bind_error traced, bind_error traced]
    | ok a m'' =>
      rw [bind_ok traced, bind_ok traced]
      have around : m''.surroundings = m'.surroundings := Keeps.of_ok (.trace setup _) traced
      have same : m''.importing = m'.importing := congrArg Surroundings.importing around
      have body := importBody_keeps (evaluationKeeps setup depth) (pathLexeme path place) path space
        source
      exact asImport_eq (same ▸ fresh) (body.coarsen fun s => s.2.2)

end ContractScript
