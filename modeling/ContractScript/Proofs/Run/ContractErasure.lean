/-
Contracts that hold leave no trace.

Taking the contracts out of a program empties the conditions before and after its functions
and puts an empty block in place of its assertions. If the conditions call nothing and
assign nothing, and the program succeeds, then it does so without its contracts too: it
writes the same, ends with the same value, and leaves the same globals. Only the references
differ, since conditions make lists and maps and empty blocks make scopes, and functions
have lost their conditions.
-/
import ContractScript.Proofs.Run.Simulation
import ContractScript.Proofs.Run.Trail

set_option autoImplicit false

namespace ContractScript

open EvalM

/-! ## Programs without contracts -/

/-- Clauses with nothing that must hold. -/
def Clauses.emptied (c : Clauses) : Clauses :=
  { c with conditions := [] }

/-- A signature with nothing that must hold. -/
def Signature.withoutContracts (s : Signature) : Signature :=
  { s with before := s.before.emptied, after := s.after.emptied }

mutual

/-- A statement with nothing before and after its functions, and with empty blocks in place of its
assertions. -/
def Stmt.withoutContracts : Stmt → Stmt
  | .block body => .block (Stmt.dropContracts body)
  | .branch condition whenTrue whenFalse =>
    .branch condition whenTrue.withoutContracts (Stmt.optionWithoutContracts whenFalse)
  | .loop condition body => .loop condition body.withoutContracts
  | .function signature body => .function signature.withoutContracts (Stmt.dropContracts body)
  | .contract .assertion _ _ => .block []
  | .test name place body => .test name place body.withoutContracts
  | .expression value => .expression value
  | .print value => .print value
  | .var name value => .var name value
  | .leave place => .leave place
  | .yield place value => .yield place value
  | .contract .check place clauses => .contract .check place clauses
  | .load path place space => .load path place space

/-- The same of every statement of a body. -/
def Stmt.dropContracts : List Stmt → List Stmt
  | [] => []
  | s :: rest => s.withoutContracts :: Stmt.dropContracts rest

/-- The same of a statement that may be missing. -/
def Stmt.optionWithoutContracts : Option Stmt → Option Stmt
  | none => none
  | some s => some s.withoutContracts

end

mutual

/-- Whether the conditions before and after functions and those of assertions call nothing and
assign nothing. -/
def Stmt.pureContracts : Stmt → Bool
  | .block body => Stmt.allPureContracts body
  | .branch _ whenTrue whenFalse => whenTrue.pureContracts && Stmt.optionPureContracts whenFalse
  | .loop _ body => body.pureContracts
  | .function signature body =>
    Expr.allPure signature.before.conditions && Expr.allPure signature.after.conditions
      && Stmt.allPureContracts body
  | .contract .assertion _ clauses => Expr.allPure clauses.conditions
  | .test _ _ body => body.pureContracts
  | .expression _ | .print _ | .var _ _ | .leave _ | .yield _ _ | .contract .check _ _
  | .load _ _ _ => true

/-- The same of every statement of a body. -/
def Stmt.allPureContracts : List Stmt → Bool
  | [] => true
  | s :: rest => s.pureContracts && Stmt.allPureContracts rest

/-- The same of a statement that may be missing. -/
def Stmt.optionPureContracts : Option Stmt → Bool
  | none => true
  | some s => s.pureContracts

end

variable {R : Place → Place → Prop}

theorem Signature.like_withoutContracts [Std.Refl R] (s : Signature)
    (before : Expr.allPure s.before.conditions = true)
    (after : Expr.allPure s.after.conditions = true) :
    s.Like R .erasing s.withoutContracts :=
  ⟨.refl s.name, List.forall₂_same.mpr fun l _ => .refl l, .emptied rfl before, .emptied rfl after⟩

mutual

/-- A statement is like itself without contracts. -/
theorem Stmt.like_withoutContracts [Std.Refl R] :
    (s : Stmt) → s.TestFree → s.pureContracts = true → s.Like R .erasing s.withoutContracts
  | .block body, tests, contracts => by
    rw [Stmt.withoutContracts]
    rw [Stmt.TestFree] at tests
    exact .block (Stmt.like_dropContracts body tests contracts)
  | .branch condition whenTrue whenFalse, tests, contracts => by
    rw [Stmt.withoutContracts]
    rw [Stmt.TestFree] at tests
    rw [Stmt.pureContracts, Bool.and_eq_true] at contracts
    exact .branch (.refl condition) (Stmt.like_withoutContracts whenTrue tests.1 contracts.1)
      (Stmt.like_optionWithoutContracts whenFalse tests.2 contracts.2)
  | .loop condition body, tests, contracts => by
    rw [Stmt.withoutContracts]
    rw [Stmt.TestFree] at tests
    exact .loop (.refl condition) (Stmt.like_withoutContracts body tests contracts)
  | .function signature body, tests, contracts => by
    rw [Stmt.withoutContracts]
    rw [Stmt.TestFree] at tests
    rw [Stmt.pureContracts, Bool.and_eq_true, Bool.and_eq_true] at contracts
    exact .function (signature.like_withoutContracts contracts.1.1 contracts.1.2)
      (Stmt.like_dropContracts body tests contracts.2)
  -- an assertion is dropped, which its conditions allow, as they only compute
  | .contract .assertion place clauses, _, contracts => by
    rw [Stmt.withoutContracts]
    exact .dropped rfl contracts
  | .test name place body, tests, _ => by
    rw [Stmt.TestFree] at tests
    exact tests.elim
  | .expression value, _, _ => .expression (.refl value)
  | .print value, _, _ => .print (.refl value)
  | .var name value, _, _ => .var (.refl name) (optionRel_refl fun e _ => .refl e)
  | .leave _, _, _ => .leave (Std.Refl.refl _)
  | .yield _ value, _, _ => .yield (Std.Refl.refl _) (optionRel_refl fun e _ => .refl e)
  | .contract .check _ clauses, _, _ =>
    .contract (Std.Refl.refl _) (Expr.Like.reflAll clauses.conditions)
  | .load _ _ space, _, _ => .load (Std.Refl.refl _) (optionRel_refl fun l _ => .refl l)

theorem Stmt.like_dropContracts [Std.Refl R] :
    (body : List Stmt) → Stmt.AllTestFree body → Stmt.allPureContracts body = true →
      List.Forall₂ (Stmt.Like R .erasing) body (Stmt.dropContracts body)
  | [], _, _ => .nil
  | s :: rest, tests, contracts => by
    rw [Stmt.allPureContracts, Bool.and_eq_true] at contracts
    exact .cons (Stmt.like_withoutContracts s tests.1 contracts.1)
      (Stmt.like_dropContracts rest tests.2 contracts.2)

theorem Stmt.like_optionWithoutContracts [Std.Refl R] :
    (s : Option Stmt) → Stmt.OptionTestFree s → Stmt.optionPureContracts s = true →
      Option.Rel (Stmt.Like R .erasing) s (Stmt.optionWithoutContracts s)
  | none, _, _ => .none
  | some s, tests, contracts => .some (Stmt.like_withoutContracts s tests contracts)

end

/-! ## Runs without contracts -/

/-- The comparison with a run without contracts: places and events are the same. -/
def Terms.erasure : Terms where
  place := Eq
  mode := .erasing
  exact := false
  event := Eq
  earlier := []
  earlier' := []
  refl _ := rfl
  sameEvent _ := rfl
  warning _ _ _ same := by rw [same]
  renames _ := rfl

/-- If a program without tests succeeds, and its conditions before and after functions and those of
its assertions call nothing and assign nothing, then the program without these contracts succeeds.
The events are the same and so is what was done to the host; the values are alike, and so are the
globals, up to what references are called and the conditions that functions have lost. -/
theorem contracts_leave_no_trace (setup : Setup) (host : Host) (script : Report.Script)
    (program : Program) (tests : Stmt.AllTestFree program)
    (contracts : Stmt.allPureContracts program = true) (v : Value) (m : Machine)
    (ran : (Session.new setup host).runProgram script program = (.success v, m)) :
    ∃ v' m' ρ,
      (Session.new setup host).runProgram script (Stmt.dropContracts program) = (.success v', m') ∧
      m'.events = m.events ∧ m'.host = m.host ∧ v.Like ρ v' ∧
      ρ.scopes Session.globals Session.globals ∧ m.store.Like .erasure ρ m'.store := by
  have follows : Follows .erasure Session.references Value.Like (runToEnd setup program)
      (runToEnd setup (Stmt.dropContracts program)) :=
    runToEnd_follows (fun tested => by cases tested) (Stmt.like_dropContracts program tests contracts)
  have ends := follows _ _ (Session.start_like setup host rfl rfl)
  rw [show runToEnd setup program (Session.start setup host) = .ok v m from
    Session.runProgram_eq_success.mp ran] at ends
  cases run : runToEnd setup (Stmt.dropContracts program) (Session.start setup host) with
  | error e m' =>
    -- ends are not alike if only the second is a failure
    rw [run] at ends
    cases ends
  | ok v' m' =>
    rw [run] at ends
    cases ends with
    | @ok ρ _ _ _ _ grown state value =>
      obtain ⟨es, es', events, events', same⟩ := state.events
      have same : List.Forall₂ Eq es es' := same
      rw [List.forall₂_eq_eq_eq] at same
      refine ⟨v', m', ρ, Session.runProgram_eq_success.mpr run, ?_, state.host.symm, value,
        grown.scopes _ _ Session.references_globals, state.store⟩
      rw [events, events', same]
      rfl

/-- A function that yields its argument, with conditions that make lists before, inside and after its
body; it is called twice. -/
def guardedProgram : Program :=
  let here : Place := ⟨none, 1⟩
  let x : Expr := .variable ⟨"x", here⟩
  let called (text : String) : Stmt :=
    .expression (.call (.variable ⟨"same", here⟩) here [.list [.literal (.text text)]])
  [ .function
      ⟨⟨"same", here⟩, [⟨"x", here⟩], ⟨[.binary .equal here (.list [x]) (.list [x])], none⟩,
        ⟨[.binary .equal here (.variable ⟨"result", here⟩) x], none⟩⟩
      [ .contract .assertion here ⟨[.binary .unequal here (.list [x, x]) (.list [x])], none⟩,
        .yield here (some x) ],
    called "a",
    called "b" ]

/-- Whether a program ended with a given list. -/
def Outcome.isList (id : ListId) : Outcome → Bool
  | .success (.list other) => other == id
  | _ => false

theorem Outcome.eq_of_isList {id : ListId} {outcome : Outcome} (h : outcome.isList id = true) :
    outcome = .success (.list id) := by
  unfold Outcome.isList at h
  split at h
  · rw [eq_of_beq h]
  · cases h

/-- The second call yields a list that was made after five others, and with no contracts one that was
made after one other. -/
theorem contracts_leave_no_trace_guarded :
    ∃ m v' m' ρ,
      (Session.new Setup.small Host.bare).runProgram ⟨"", none⟩ guardedProgram
        = (.success (.list 5), m) ∧
      (Session.new Setup.small Host.bare).runProgram ⟨"", none⟩
        (Stmt.dropContracts guardedProgram) = (.success v', m') ∧
      m'.events = m.events ∧ m'.host = m.host ∧ Value.Like ρ (.list 5) v' ∧
      ρ.scopes Session.globals Session.globals ∧ m.store.Like .erasure ρ m'.store := by
  have succeeded : ((Session.new Setup.small Host.bare).runProgram ⟨"", none⟩
      guardedProgram).1.isList 5 = true := by
    decide +kernel
  obtain ⟨m, ran⟩ : ∃ m, (Session.new Setup.small Host.bare).runProgram ⟨"", none⟩
      guardedProgram = (.success (.list 5), m) :=
    ⟨_, Prod.ext (Outcome.eq_of_isList succeeded) rfl⟩
  have tests : Stmt.AllTestFree guardedProgram := by
    simp [guardedProgram, Stmt.AllTestFree, Stmt.TestFree]
  obtain ⟨v', m', ρ, erased⟩ := contracts_leave_no_trace Setup.small Host.bare ⟨"", none⟩
    guardedProgram tests (by decide) _ m ran
  exact ⟨m, v', m', ρ, ran, erased⟩

end ContractScript
