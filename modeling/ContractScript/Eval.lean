/-
Running programs. Expressions yield values and statements yield signals; both
work on the state of the run.

Every evaluation nests one level deeper than the one that asked for it. When the
levels are used up the run cannot go on: inside a call this is a fault of the
program, located at the innermost call, elsewhere a defect. A loop has no such
limit. Its rounds are counted apart from the levels, so that a run comes to an end,
and one that has used them up is left unfinished.
-/
import ContractScript.Native.Call
import ContractScript.Operator
import ContractScript.Program.Parser

set_option autoImplicit false

namespace ContractScript

open EvalM

namespace EvalM

/-- The value of a name, or a fault at the name. -/
def lookup (name : Lexeme) : EvalM Value := do
  let m ← get
  match m.store.value? m.scope name.text with
  | some v => return v
  | none => failAt name (.undefinedVariable name.text)

/-- The value of a qualified name, or a fault at the part that is missing. -/
def lookupQualified (spaces : List Lexeme) (name : Lexeme) : EvalM Value := do
  let m ← get
  match m.store.qualifiedValue m.scope spaces name with
  | .ok v => return v
  | .error (missing, cause) => failAt missing cause

/-- Changes the value of a name, or fails at the name. -/
def assign (name : Lexeme) (v : Value) : EvalM Unit := do
  let m ← get
  match m.store.owner? m.scope name.text with
  | some owner => define owner name.text v
  | none => failAt name (.undefinedVariable name.text)

/-- Runs a step as a call in progress: its frame is pushed before and the topmost
frame popped afterwards. A fault that leaves the call is located there unless it
already is, and notes the calls in progress; running out of levels becomes a fault
at this call. -/
def asCall {α : Type} (frame : Frame) (close : Lexeme) (step : EvalM α) : EvalM α := fun m =>
  match step { m with frames := frame :: m.frames } with
  | .ok a m' => .ok a { m' with frames := m'.frames.tail }
  | .error e m' =>
    let stack := m'.frames.reverse
    let located := match e with
      | .fault f => .fault ⟨f.cause, f.lexeme <|> some close, f.stack <|> some stack⟩
      | .defect .tooDeep => .fault ⟨.stackOverflow, some close, some stack⟩
      | other => other
    .error located { m' with frames := m'.frames.tail }

/-- Runs a test body and notes how it ended. Only faults are caught. -/
def asTest {α : Type} (name : String) (line : Nat) (step : EvalM α) : EvalM Unit := do
  let failure := match ← catchFault step with
    | .ok _ => none
    | .error f => some f.cause.message
  modify fun m => { m with tests := m.tests ++ [⟨name, line, failure⟩] }

/-- Runs a step while a module is being imported: its name is added to those of the
modules being imported and discarded afterwards. The directory becomes again the one
from before. -/
def asImport {α : Type} (name : String) (step : EvalM α) : EvalM α := fun m =>
  let directory := m.directory
  restoring
    (fun m' => { m' with
      directory := directory, importing := m'.importing.filter (· != name) })
    step { m with importing := name :: m.importing }

/-- Repeats a loop as long as its condition holds, for a number of rounds. -/
def iterate (condition : EvalM Bool) (body : EvalM Signal) : Nat → EvalM Signal
  | 0 => throw .unfinished
  | rounds + 1 => do
    if ← condition then
      match ← body with
      | .next => iterate condition body rounds
      | .leave => return .next
      | .yield v => return .yield v
    else
      return .next

/-- Runs statements one after another up to the first that does not just end. -/
def sequence (run : Stmt → EvalM Signal) : List Stmt → EvalM Signal
  | [] => return .next
  | s :: rest => do
    match ← run s with
    | .next => sequence run rest
    | signal => return signal

/-- Whether all conditions hold; those after the first that does not are not
evaluated. -/
def allHold (value : Expr → EvalM Value) : List Expr → EvalM Bool
  | [] => return true
  | e :: rest => do
    if (← value e).isTruthy then allHold value rest else return false

/-- Evaluates expressions from left to right. -/
def values (value : Expr → EvalM Value) : List Expr → EvalM (List Value)
  | [] => return []
  | e :: rest => do
    let first ← value e
    return first :: (← values value rest)

/-- Evaluates the entries of a map and writes them one after another. The key
of an entry is what it is once the value has been evaluated. -/
def entries (depth : Nat) (value : Expr → EvalM Value) (content : OrderedMap Key Entry) :
    List (Expr × Expr) → EvalM (OrderedMap Key Entry)
  | [] => return content
  | (k, v) :: rest => do
    let shownKey ← value k
    let item ← value v
    let key ← keyOf depth shownKey
    entries depth value (content.insert key ⟨shownKey, item⟩) rest

/-- Binds parameters to arguments. -/
def bind (scope : ScopeId) : List Lexeme → List Value → EvalM Unit
  | p :: ps, v :: vs => do
    define scope p.text v
    bind scope ps vs
  | _, _ => return ()

/-- The declarations of a module, or a fault if it is not well formed. -/
def moduleDeclarations (path : Lexeme) (pathText : String) (source : ModuleSource) :
    EvalM Program := do
  let (program, diagnostics) := Program.ofSource false (some source.name) source.source
  if diagnostics.isEmpty then
    return program.filter Stmt.isDeclaration
  else
    failAt path (.moduleErrors pathText diagnostics)

/-- Finds the module that an import means. -/
def findModule (setup : Setup) (path : Lexeme) (pathText : String) : EvalM ModuleSource := do
  let m ← get
  match Module.load setup.loaders m.host.site m.directory pathText with
  | .error (.refused e) => failAt path (.importRefused pathText e.reason)
  | .error .nullByte => throw (.defect .nullByte)
  | .error (.undecodable bad) => throw (.defect (.undecodable bad))
  | .ok none => failAt path (.moduleNotFound pathText)
  | .ok (some source) =>
    if m.importing.contains source.name then failAt path (.circularImport pathText)
    else return source

/-- The scope that an import declares into: the current one, or a new one that
becomes a namespace of it. -/
def importTarget (setup : Setup) : Option Lexeme → EvalM ScopeId
  | none => do return (← get).scope
  | some name => do
    let target ← newRoot setup
    modify fun m => { m with store := m.store.defineSpace m.scope name.text target }
    return target

/-- Makes a module's directory the current one, if it has one. -/
def enterDirectory : Option String → EvalM Unit
  | none => return ()
  | some dir => modify fun m => { m with directory := some dir }

end EvalM

/-- The lexeme of an import path. -/
def pathLexeme (path : String) (place : Place) : Lexeme :=
  ⟨Store.quoteText path, place⟩

/-- The lexeme of a closing parenthesis. -/
def closeLexeme (place : Place) : Lexeme := ⟨")", place⟩

/-- The name and the number of parameters of a value that can be called. -/
def Store.callable? (s : Store) : Value → Option (String × Nat)
  | .function id => (s.closure? id).map fun c => (c.signature.name.text, c.signature.parameters.length)
  | .native f => some (f.name, f.arity)
  | _ => none

mutual

/-- Evaluates an expression. -/
def evaluate (setup : Setup) : Nat → Expr → EvalM Value
  | 0, _ => throw (.defect .tooDeep)
  | depth + 1, e => do
    match e with
    | .literal value => return value.value
    | .group inner => evaluate setup depth inner
    | .variable name => lookup name
    | .qualified spaces name => lookupQualified spaces name
    | .assign name value =>
      let v ← evaluate setup depth value
      assign name v
      return v
    | .unary op place operand =>
      let v ← evaluate setup depth operand
      op.apply place v
    | .binary op place left right =>
      let a ← evaluate setup depth left
      let b ← evaluate setup depth right
      op.apply depth place a b
    | .logical op _ left right =>
      let a ← evaluate setup depth left
      match op with
      | .or => if a.isTruthy then return a else evaluate setup depth right
      | .and => if a.isTruthy then evaluate setup depth right else return a
    | .choice condition whenTrue whenFalse =>
      if (← evaluate setup depth condition).isTruthy then evaluate setup depth whenTrue
      else evaluate setup depth whenFalse
    | .call callee close arguments =>
      let f ← evaluate setup depth callee
      let vs ← values (evaluate setup depth) arguments
      callValue setup depth close f vs
    | .list items => newList (← values (evaluate setup depth) items).toArray
    | .map pairs =>
      let content ← entries depth (evaluate setup depth) .empty pairs
      return .map (← onStore fun s => s.newMap content)
    | .index collection bracket key =>
      let c ← evaluate setup depth collection
      let k ← evaluate setup depth key
      indexValue depth bracket c k
    | .slice collection bracket first last =>
      let c ← evaluate setup depth collection
      let low ← evaluate setup depth first
      let high ← evaluate setup depth last
      sliceValue bracket c low high

/-- Calls a value with arguments that have been evaluated. -/
def callValue (setup : Setup) : Nat → Place → Value → List Value → EvalM Value
  | 0, _, _, _ => throw (.defect .tooDeep)
  | depth + 1, place, f, arguments => do
    let close := closeLexeme place
    match (← get).store.callable? f with
    | none => failAt close .notCallable
    | some (name, arity) =>
      if arguments.length != arity then
        failAt close (.wrongArity arity arguments.length)
      else
        asCall ⟨name, place⟩ close (invoke setup depth f arguments)

/-- Does what a call does once its frame is in place. -/
def invoke (setup : Setup) : Nat → Value → List Value → EvalM Value
  | 0, _, _ => throw (.defect .tooDeep)
  | depth + 1, f, arguments => do
    match f with
    | .native g => g.call setup depth arguments
    | .function id =>
      match (← get).store.closure? id with
      | none => return .nil
      | some c =>
        let scope ← newScope (some c.scope)
        bind scope c.signature.parameters arguments
        let before ← inScope scope (allHold (evaluate setup depth) c.signature.before.conditions)
        if !before then failHere (.precondition c.signature.before.message)
        let signal ← inScope scope (sequence (execute setup depth) c.body)
        let result := match signal with
          | .yield v => v
          | _ => .nil
        define scope "result" result
        let after ← inScope scope (allHold (evaluate setup depth) c.signature.after.conditions)
        if !after then failHere (.postcondition c.signature.after.message)
        return result
    | _ => return .nil

/-- Executes a statement. -/
def execute (setup : Setup) : Nat → Stmt → EvalM Signal
  | 0, _ => throw (.defect .tooDeep)
  | depth + 1, s => do
    match s with
    | .expression value =>
      let _ ← evaluate setup depth value
      return .next
    | .print value =>
      let v ← evaluate setup depth value
      emit .output (← shown depth v)
      return .next
    | .var name value =>
      let v ← match value with
        | some e => evaluate setup depth e
        | none => pure .nil
      defineHere name.text v
      return .next
    | .block body =>
      let scope ← newScope (some (← get).scope)
      inScope scope (sequence (execute setup depth) body)
    | .branch condition whenTrue whenFalse =>
      if (← evaluate setup depth condition).isTruthy then execute setup depth whenTrue
      else
        match whenFalse with
        | some other => execute setup depth other
        | none => return .next
    | .loop condition body =>
      iterate (return (← evaluate setup depth condition).isTruthy) (execute setup depth body)
        setup.limits.rounds
    | .leave _ => return .leave
    | .yield _ value =>
      match value with
      | some e => return .yield (← evaluate setup depth e)
      | none => return .yield .nil
    | .function signature body =>
      let scope := (← get).scope
      let id ← onStore fun s => s.newFunction ⟨signature, body, scope⟩
      defineHere signature.name.text (.function id)
      return .next
    | .contract kind place clauses =>
      if ← allHold (evaluate setup depth) clauses.conditions then return .next
      match kind with
      | .assertion => failAt ⟨kind.word, place⟩ (.assertion clauses.message)
      | .check =>
        emit .error (withMessage "Warning" clauses.message ++ " [" ++ place.text ++ "]")
        return .next
    | .load path place space =>
      importModule setup depth path place space
      return .next
    | .test name place body =>
      trace setup ("test: " ++ name)
      let scope ← newScope (some (← get).scope)
      asTest name place.line (inScope scope (execute setup depth body))
      return .next

/-- Imports a module: runs its declarations in the scope they are meant for. -/
def importModule (setup : Setup) : Nat → String → Place → Option Lexeme → EvalM Unit
  | 0, _, _, _ => throw (.defect .tooDeep)
  | depth + 1, path, place, space => do
    let lexeme := pathLexeme path place
    let source ← findModule setup lexeme path
    trace setup ("import: " ++ path ++ " -> " ++ source.name)
    asImport source.name do
      let declarations ← moduleDeclarations lexeme path source
      let target ← importTarget setup space
      enterDirectory source.directory
      let _ ← inScope target (sequence (execute setup depth) declarations)
      return ()

end

end ContractScript
