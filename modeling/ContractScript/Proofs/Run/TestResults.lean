/-
Test results are neither lost nor reported twice.

The verdict of a test is a matter of how its body ends. In the course of a run tests end
one after another, inside blocks, loops, functions and other tests, and the chronicle of
the run has them in that order. The first part shows that the pending results grow by the
verdicts of the chronicle and by nothing else, and that this holds at every point inside
the run: what is pending there is what was pending at the start, and then the verdicts of
the tests that have ended by then.

The second part is about sessions. A script that is not well formed runs no test, one that
ends with a defect leaves its results pending, and any other reports all that is pending.
So the reports of a session, one after another, and what is still pending are together the
verdicts of all tests that have ended.
-/
import ContractScript.Proofs.Run.Handover
import ContractScript.Proofs.Run.Isolation

set_option autoImplicit false

namespace ContractScript

open EvalM Course

/-! ## Verdicts -/

/-- The verdict on a test whose body ended in some way: it passes if the body ends well, it fails
with the message of a fault, and a defect leaves none, nor does a body that is left unfinished. -/
def verdict? {α : Type} (name : String) (line : Nat) :
    EStateM.Result Failure Machine α → Option TestResult
  | .ok _ _ => some ⟨name, line, none⟩
  | .error (.fault f) _ => some ⟨name, line, some f.cause.message⟩
  | .error (.defect _) _ => none
  | .error .unfinished _ => none

/-- The verdict that an evaluation ends with, if it is that of a test: the one on its body. -/
def Config.verdict? (setup : Setup) (c : Config) : Option TestResult :=
  match c.task, c.asked setup with
  | .execute (.test name place body), [(_, inner)] =>
    ContractScript.verdict? name place.line (execute setup inner.depth body inner.machine)
  | _, _ => none

theorem Config.verdict?_none {setup : Setup} {depth : Nat} {task : Task} {m : Machine}
    (other : ∀ name place body, task ≠ .execute (.test name place body)) :
    Config.verdict? setup ⟨depth, task, m⟩ = none := by
  cases task with
  | execute s =>
    cases s with
    | test name place body => exact absurd rfl (other name place body)
    | _ => rfl
  | _ => rfl

/-- The verdicts of evaluations in the order in which these ended. -/
def verdicts (setup : Setup) (ended : List Config) : List TestResult :=
  ended.filterMap (Config.verdict? setup)

theorem verdicts_append (setup : Setup) (first second : List Config) :
    verdicts setup (first ++ second) = verdicts setup first ++ verdicts setup second :=
  List.filterMap_append

theorem verdicts_flatMap {ι : Type} (setup : Setup) (items : List ι) (ended : ι → List Config) :
    verdicts setup (items.flatMap ended) = items.flatMap fun i => verdicts setup (ended i) := by
  induction items with
  | nil => rfl
  | cons i rest ih =>
    rw [List.flatMap_cons, List.flatMap_cons, verdicts_append, ih]

/-- The verdicts in the course of an evaluation. -/
def Config.verdicts (setup : Setup) (c : Config) : List TestResult :=
  ContractScript.verdicts setup (c.chronicle setup)

theorem Config.verdicts_eq (setup : Setup) (c : Config) :
    c.verdicts setup
      = (c.asked setup).flatMap (fun asked => asked.2.verdicts setup) ++ (c.verdict? setup).toList := by
  unfold Config.verdicts
  rw [Config.chronicle_eq, verdicts_append, verdicts_flatMap]
  have last : ContractScript.verdicts setup [c] = (c.verdict? setup).toList := by
    unfold ContractScript.verdicts
    rw [List.filterMap_cons, List.filterMap_nil]
    cases c.verdict? setup <;> rfl
  rw [last]

/-! ## Results along a course -/

namespace EvalM

variable {α : Type} {step : EvalM α} {m m' : Machine}

/-- Where a step ends does not depend on what is made of its result. -/
theorem finalState_bind_pure {β : Type} (x : EvalM α) (f : α → β) (m : Machine) :
    finalState (x >>= fun a => pure (f a)) m = finalState x m := by
  rw [finalState_bind]
  unfold finalState
  cases x m <;> rfl

theorem catchFault_ok {a : α} (ran : step m = .ok a m') : catchFault step m = .ok (.ok a) m' := by
  unfold catchFault
  rw [ran]

theorem catchFault_fault {f : Fault} (failed : step m = .error (.fault f) m') :
    catchFault step m = .ok (.error f) m' := by
  unfold catchFault
  rw [failed]

theorem catchFault_defect {d : Defect} (failed : step m = .error (.defect d) m') :
    catchFault step m = .error (.defect d) m' := by
  unfold catchFault
  rw [failed]

theorem catchFault_unfinished (stopped : step m = .error .unfinished m') :
    catchFault step m = .error .unfinished m' := by
  unfold catchFault
  rw [stopped]

end EvalM

instance : Sheltered Machine.tests :=
  ⟨fun _ _ => rfl, fun _ _ => rfl, fun _ _ => rfl⟩

instance : Detached Machine.tests :=
  ⟨fun _ _ _ _ _ => rfl⟩

/-- Questions are put one after another, each with the results that there were at the start and
those that were added since, and at the end there are these results and no others. -/
inductive Threads (added : Question → List TestResult) :
    List TestResult → List Question → List TestResult → Prop
  | done {ts : List TestResult} : Threads added ts [] ts
  | next {q : Question} {rest : List Question} {ts ts' : List TestResult}
      (starts : q.machine.tests = ts) (further : Threads added (ts ++ added q) rest ts') :
      Threads added ts (q :: rest) ts'

namespace Threads

variable {added : Question → List TestResult} {ts ts' : List TestResult}

theorem total {asked : List Question} (h : Threads added ts asked ts') :
    ts' = ts ++ asked.flatMap added := by
  induction h with
  | done => rw [List.flatMap_nil, List.append_nil]
  | next _ _ ih => rw [ih, List.flatMap_cons, List.append_assoc]

/-- What is there when a question is put is what the earlier ones have added. -/
theorem reached {earlier later : List Question} {q : Question}
    (h : Threads added ts (earlier ++ q :: later) ts') :
    q.machine.tests = ts ++ earlier.flatMap added := by
  induction earlier generalizing ts with
  | nil =>
    cases h with
    | next starts _ => rw [starts, List.flatMap_nil, List.append_nil]
  | cons first rest ih =>
    cases h with
    | next _ further => rw [ih further, List.flatMap_cons, List.append_assoc]

end Threads

/-- A step adds the results of its questions, in order, and no others. -/
def Accounts {α : Type} (added : Question → List TestResult) (step : EvalM α) (course : Course) : Prop :=
  ∀ m, Threads added m.tests (course m) (finalState step m).tests

/-! ## Evaluation adds the verdicts of its chronicle -/

/-- The results that a question of an evaluation adds. -/
def Question.added (setup : Setup) (depth : Nat) (q : Question) : List TestResult :=
  Config.verdicts setup ⟨depth, q.task, q.machine⟩

/-- The evaluations at one number of levels add the verdicts of their chronicles. -/
def Accounted (setup : Setup) (depth : Nat) : Prop :=
  ∀ task m, (Config.finalState setup ⟨depth, task, m⟩).tests
    = m.tests ++ Config.verdicts setup ⟨depth, task, m⟩

section Level

variable {setup : Setup} {depth : Nat} (ih : Accounted setup depth)
include ih

/-- What is handed on grows by what each question adds. -/
theorem Threads.of_handed {ts ts' : List TestResult} {asked : List Question}
    (handed : Handed Machine.tests setup depth ts asked ts') :
    Threads (Question.added setup depth) ts asked ts' := by
  induction handed with
  | done => exact .done
  | @next q rest ts ts' starts _ threads =>
    have left : (q.ended setup depth).tests = ts ++ q.added setup depth := by
      rw [← starts]
      exact ih q.task q.machine
    rw [left] at threads
    exact .next starts threads

theorem Hands.accounts {α : Type} {step : EvalM α} {course : Course}
    (hands : Hands Machine.tests setup depth step course) :
    Accounts (Question.added setup depth) step course :=
  fun m => .of_handed ih (hands m)

/-- Every task but a test adds the results of its questions. -/
theorem Task.accounts {task : Task} (other : ∀ name place body, task ≠ .execute (.test name place body))
    (m : Machine) :
    Threads (Question.added setup depth) m.tests (task.course setup depth m)
      (Config.finalState setup ⟨depth + 1, task, m⟩).tests :=
  .of_handed ih (Task.handed Machine.tests setup depth (fun g arguments _ => .native setup depth g arguments)
    (fun name place body same => absurd same (other name place body)) m)

/-- A test adds the results of its body and then its own. -/
theorem accounted_test (name : String) (place : Place) (body : Stmt) (m : Machine) :
    (finalState (execute setup (depth + 1) (.test name place body)) m).tests
      = m.tests ++ Config.verdicts setup ⟨depth + 1, .execute (.test name place body), m⟩ := by
  obtain ⟨m₁, traced⟩ : ∃ m₁, trace setup ("test: " ++ name) m = .ok () m₁ := by
    unfold trace
    split <;> exact ⟨_, rfl⟩
  have traces : Keeps Machine.tests (trace setup ("test: " ++ name)) := .trace setup _
  have kept : m₁.tests = m.tests := traces.of_ok traced
  -- the state in which the body starts: in a scope of its own
  obtain ⟨inside, entered⟩ : ∃ inside : Machine, inside = { m₁ with
      store := (m₁.store.newScope (some m₁.scope)).2
      scope := (m₁.store.newScope (some m₁.scope)).1 } := ⟨_, rfl⟩
  have asked : Config.asked setup ⟨depth + 1, .execute (.test name place body), m⟩
      = [(.test, ⟨depth, .execute body, inside⟩)] := by
    simp only [Config.asked, Task.course, Stmt.course, Course.after, traced, entered]
    rfl
  have answered : (finalState (execute setup depth body) inside).tests
      = inside.tests ++ Config.verdicts setup ⟨depth, .execute body, inside⟩ := ih (.execute body) inside
  have own : Config.verdict? setup ⟨depth + 1, .execute (.test name place body), m⟩
      = verdict? name place.line (execute setup depth body inside) := by
    simp only [Config.verdict?, asked]
  have starts : inside.tests = m.tests := by
    rw [entered, ← kept]
  rw [Config.verdicts_eq, asked, own, List.flatMap_cons, List.flatMap_nil, List.append_nil,
    ← List.append_assoc, ← starts, ← answered]
  have run : finalState (execute setup (depth + 1) (.test name place body)) m
      = finalState (asTest name place.line (EvalM.inScope inside.scope (execute setup depth body)))
          { m₁ with store := inside.store } := by
    rw [execute, finalState_bind, traced, entered]
    exact finalState_bind_pure _ _ _
  rw [run]
  unfold finalState asTest
  have swapped : ({ m₁ with store := inside.store, scope := inside.scope } : Machine) = inside := by
    rw [entered]
  cases ended : execute setup depth body inside with
  | ok signal m' =>
    rw [bind_ok (catchFault_ok (inScope_ok (by rw [swapped]; exact ended)))]
    rfl
  | error e m' =>
    cases e with
    | fault f =>
      rw [bind_ok (catchFault_fault (inScope_error (by rw [swapped]; exact ended)))]
      rfl
    | defect d =>
      rw [bind_error (catchFault_defect (inScope_error (by rw [swapped]; exact ended)))]
      exact (List.append_nil _).symm
    | unfinished =>
      rw [bind_error (catchFault_unfinished (inScope_error (by rw [swapped]; exact ended)))]
      exact (List.append_nil _).symm

end Level

/-- The results that a task finds and adds, apart from a verdict of its own. -/
theorem Config.verdicts_of_threads {setup : Setup} {depth : Nat} (task : Task) {m : Machine}
    {ts : List TestResult}
    (threads : Threads (Question.added setup depth) m.tests (task.course setup depth m) ts)
    (none : Config.verdict? setup ⟨depth + 1, task, m⟩ = none) :
    ts = m.tests ++ Config.verdicts setup ⟨depth + 1, task, m⟩ := by
  rw [threads.total, Config.verdicts_eq, none, Option.toList_none, List.append_nil]
  unfold Config.asked
  rw [List.flatMap_map]
  rfl

/-- Evaluation adds the verdicts of its chronicle to the pending results. -/
theorem accounted (setup : Setup) (depth : Nat) : Accounted setup depth := by
  induction depth with
  | zero =>
    intro task m
    have nothing : Config.verdicts setup ⟨0, task, m⟩ = [] := by
      rw [Config.verdicts_eq]
      cases task with
      | execute s => cases s <;> rfl
      | _ => rfl
    rw [nothing, List.append_nil]
    cases task <;> rfl
  | succ depth ih =>
    intro task m
    by_cases test : ∃ name place body, task = .execute (.test name place body)
    · obtain ⟨name, place, body, rfl⟩ := test
      exact accounted_test ih name place body m
    · have other : ∀ name place body, task ≠ .execute (.test name place body) :=
        fun name place body same => test ⟨name, place, body, same⟩
      exact Config.verdicts_of_threads task (Task.accounts ih other m) (Config.verdict?_none other)

/-- The questions of a task are put with the results that the earlier ones have added. -/
theorem Task.threads (setup : Setup) (depth : Nat) (task : Task) (m : Machine) :
    ∃ ts, Threads (Question.added setup depth) m.tests (task.course setup depth m) ts := by
  have ih := accounted setup depth
  by_cases test : ∃ name place body, task = .execute (.test name place body)
  · obtain ⟨name, place, body, rfl⟩ := test
    have asks : Hands Machine.tests setup depth (do
          trace setup ("test: " ++ name)
          let m ← get
          let scope ← newScope (some m.scope)
          EvalM.inScope scope (ContractScript.execute setup depth body))
        ((Stmt.test name place body).course setup depth) :=
      .after (.trace setup _) fun _ => Hands.inNewScope (f := id) fun scope =>
        ((Hands.traversal _ setup depth).execute .test body).inScope scope
    exact ⟨_, asks.accounts ih m⟩
  · exact ⟨_, Task.accounts ih (fun name place body same => test ⟨name, place, body, same⟩) m⟩

/-- What is pending at a point inside an evaluation is what was pending when it started, and the
verdicts of what has ended since. -/
theorem Past.tests {setup : Setup} {c c' : Config} {ended : List Config}
    (past : Past setup c ended c') : c'.machine.tests = c.machine.tests ++ verdicts setup ended := by
  induction past with
  | here => exact (List.append_nil _).symm
  | @step c c₁ c' link earlier later ended asked _ ih =>
    obtain ⟨depth, task, m⟩ := c
    cases depth with
    | zero =>
      have none : ([] : List (Link × Config)) = earlier ++ (link, c₁) :: later := asked
      simp at none
    | succ depth =>
      obtain ⟨ts, threads⟩ := Task.threads setup depth task m
      -- the questions before this one, as configurations
      obtain ⟨before, others, split, rfl, last⟩ := List.map_eq_append_iff.mp asked
      obtain ⟨q, rest, rfl, same, rfl⟩ := List.map_eq_cons_iff.mp last
      cases same
      rw [split] at threads
      have starts : q.machine.tests = m.tests ++ before.flatMap (Question.added setup depth) :=
        threads.reached
      rw [ih, starts, verdicts_append, verdicts_flatMap, List.flatMap_map, List.append_assoc]
      rfl

/-! ## Scripts -/

/-- The evaluations of a program, in the order in which they end. -/
def Program.chronicle (setup : Setup) : Program → Machine → List Config
  | [], _ => []
  | s :: rest, m =>
    (Config.top setup s m).chronicle setup ++ match runTop setup s m with
      | .ok _ m' => Program.chronicle setup rest m'
      | .error _ _ => []

/-- A program comes to an evaluation, with everything that has ended by then. -/
inductive Program.Reaches (setup : Setup) : Program → Machine → List Config → Config → Prop
  | first {s : Stmt} {rest : Program} {m : Machine} {ended : List Config} {c : Config}
      (past : Past setup (.top setup s m) ended c) : Program.Reaches setup (s :: rest) m ended c
  | later {s : Stmt} {rest : Program} {m m₁ : Machine} {v : Value} {ended : List Config} {c : Config}
      (ran : runTop setup s m = .ok v m₁) (further : Program.Reaches setup rest m₁ ended c) :
      Program.Reaches setup (s :: rest) m ((Config.top setup s m).chronicle setup ++ ended) c

/-- The top level may show a value, and does nothing else that evaluation does not do. -/
theorem view_runTop {γ : Type} {view : Machine → γ} [Unheard view] (setup : Setup) (s : Stmt)
    (m : Machine) :
    view (finalState (runTop setup s) m) = view (Config.finalState setup (.top setup s m)) := by
  cases s with
  | expression e =>
    refine Keeps.view_bind (fun v => ?_) m
    split
    · exact .bind (.shown _ _) fun _ => .bind (.note _) fun _ => .pure _
    · exact .pure _
  | _ => exact congrArg view (finalState_bind_pure _ _ m)

theorem tests_runTop (setup : Setup) (s : Stmt) (m : Machine) :
    (finalState (runTop setup s) m).tests = m.tests ++ (Config.top setup s m).verdicts setup := by
  have answered : (Config.finalState setup (.top setup s m)).tests
      = m.tests ++ (Config.top setup s m).verdicts setup := accounted setup setup.limits.depth s.topTask m
  rw [← answered]
  exact view_runTop setup s m

/-- Running a program adds the verdicts of its chronicle. -/
theorem tests_runAll (setup : Setup) (program : Program) : ∀ (last : Value) (m : Machine),
    (finalState (runAll setup last program) m).tests
      = m.tests ++ verdicts setup (program.chronicle setup m) := by
  induction program with
  | nil => exact fun _ _ => (List.append_nil _).symm
  | cons s rest ih =>
    intro last m
    have first := tests_runTop setup s m
    rw [runAll, finalState_bind, Program.chronicle, verdicts_append]
    unfold finalState at first
    cases run : runTop setup s m with
    | ok v m' =>
      rw [run] at first
      dsimp only at first ⊢
      rw [ih, first, List.append_assoc]
      rfl
    | error e m' =>
      rw [run] at first
      dsimp only at first ⊢
      rw [first]
      exact congrArg (m.tests ++ ·) (List.append_nil _).symm

theorem Program.Reaches.tests {setup : Setup} {program : Program} {m : Machine} {ended : List Config}
    {c : Config} (reaches : program.Reaches setup m ended c) :
    c.machine.tests = m.tests ++ verdicts setup ended := by
  induction reaches with
  | first past => exact past.tests
  | @later s rest m m₁ v ended c ran _ ih =>
    have first := tests_runTop setup s m
    unfold finalState at first
    rw [ran] at first
    dsimp only at first
    rw [ih, first, verdicts_append, List.append_assoc]
    rfl

/-- What has ended by then, and then the evaluation that is reached, are the beginning of the
chronicle. -/
theorem Program.Reaches.prefix_chronicle {setup : Setup} {program : Program} {m : Machine}
    {ended : List Config} {c : Config} (reaches : program.Reaches setup m ended c) :
    ended ++ c.chronicle setup <+: program.chronicle setup m := by
  induction reaches with
  | first past => exact past.prefix_chronicle.trans (List.prefix_append _ _)
  | later ran _ ih =>
    rw [Program.chronicle, ran, List.append_assoc, List.prefix_append_right_inj]
    exact ih

theorem Program.reaches_of_inTurn {setup : Setup} {program : Program} {s : Stmt} {m m' : Machine}
    {links : List Link} {c : Config} (reached : InTurn (runTop setup) (fun _ => True) program m s m')
    (trail : Trail setup (.top setup s m') links c) : ∃ ended, program.Reaches setup m ended c := by
  induction reached with
  | first =>
    obtain ⟨ended, past⟩ := trail.past
    exact ⟨ended, .first past⟩
  | later ran _ _ ih =>
    obtain ⟨ended, reaches⟩ := ih trail
    exact ⟨_, .later ran reaches⟩

theorem Program.mem_chronicle {setup : Setup} {program : Program} {m : Machine} {c : Config} :
    c ∈ program.chronicle setup m ↔ ∃ s m' links,
      InTurn (runTop setup) (fun _ => True) program m s m' ∧ Trail setup (.top setup s m') links c := by
  constructor
  · intro member
    induction program generalizing m with
    | nil => exact absurd member List.not_mem_nil
    | cons s rest ih =>
      rw [Program.chronicle, List.mem_append] at member
      rcases member with here | further
      · obtain ⟨links, trail⟩ := Config.mem_chronicle.mp here
        exact ⟨s, m, links, .first, trail⟩
      · cases ran : runTop setup s m with
        | ok v m₁ =>
          rw [ran] at further
          obtain ⟨t, m', links, reached, trail⟩ := ih further
          exact ⟨t, m', links, .later ran trivial reached, trail⟩
        | error e m₁ =>
          rw [ran] at further
          exact absurd further List.not_mem_nil
  · rintro ⟨s, m', links, reached, trail⟩
    obtain ⟨ended, reaches⟩ := Program.reaches_of_inTurn reached trail
    have member : c ∈ ended ++ c.chronicle setup :=
      List.mem_append_right _ (Config.mem_chronicle.mpr ⟨[], .here⟩)
    exact reaches.prefix_chronicle.subset member

/-! ## Reports -/

/-- Runs a program and reports a fault, but not the tests. -/
def attempt (setup : Setup) (describe : Fault → String) (program : Program) :
    EvalM (Except Fault Value) := do
  let result ← catchFault (runAll setup .nil program)
  match result with
  | .ok _ => pure ()
  | .error f =>
    trace setup ("runtime error: " ++ f.cause.message)
    emit .error (describe f)
  return result

/-- A program is run, and then its tests are reported. -/
theorem interpret_eq (setup : Setup) (describe : Fault → String) (program : Program) :
    interpret setup describe program
      = attempt setup describe program >>= fun result => reportTests setup >>= fun _ => pure result := by
  unfold interpret attempt
  rw [bind_assoc]
  congr 1
  funext result
  cases result with
  | ok v => rfl
  | error f => simp only [bind_assoc, pure_bind]

theorem tests_attempt (setup : Setup) (describe : Fault → String) (program : Program) (m : Machine) :
    (finalState (attempt setup describe program) m).tests
      = m.tests ++ verdicts setup (program.chronicle setup m) := by
  rw [← tests_runAll setup program .nil m, ← finalState_catchFault (runAll setup .nil program)]
  refine Keeps.view_bind (fun result => ?_) m
  cases result with
  | ok v => exact .pure _
  | error f => exact .bind (.trace _ _) fun _ => .bind (.note _) fun _ => .pure _

/-- A row of a report tells a result. -/
inductive TestRow.Tells : TestRow → TestResult → Prop
  | pass (name : String) (line : Nat) : Tells ⟨"PASS", line, name, none⟩ ⟨name, line, none⟩
  | fail (name : String) (line : Nat) (message : String) :
      Tells ⟨"FAIL", line, name, some message⟩ ⟨name, line, some message⟩

theorem Report.row_tells (r : TestResult) : (Report.row r).Tells r := by
  obtain ⟨name, line, failure⟩ := r
  cases failure with
  | none => exact .pass name line
  | some message => exact .fail name line message

/-- A report on test results is seen as what the renderer makes of the template and of one row for
each result, in their order, but for line feeds at the end. There is none on no results. -/
inductive Reported (render : Renderer) : List TestResult → List Event → Prop
  | nothing : Reported render [] []
  | shown {results : List TestResult} {rows : List TestRow} {text : String} {feeds : Nat}
      (pending : results ≠ []) (tells : List.Forall₂ TestRow.Tells rows results)
      (rendered : (render Report.template rows).toList = text.toList ++ List.replicate feeds '\n')
      (ends : text.toList.getLast? ≠ some '\n') :
      Reported render results [.effect .output text]

/-- What a report on test results looks like from outside. -/
def reportEvents (render : Renderer) (results : List TestResult) : List Event :=
  if results.isEmpty then [] else [.effect .output (Report.ofTests render results)]

/-- What is dropped at the end of a text are line feeds, all of them. -/
theorem Report.dropNewlines_spec (text : String) :
    ∃ feeds, text.toList = (Report.dropNewlines text).toList ++ List.replicate feeds '\n' := by
  have split := List.takeWhile_append_dropWhile (p := (· == '\n')) (l := text.toList.reverse)
  have feeds : text.toList.reverse.takeWhile (· == '\n')
      = List.replicate (text.toList.reverse.takeWhile (· == '\n')).length '\n' :=
    List.eq_replicate_iff.mpr ⟨rfl, fun c member => by simpa using List.mem_takeWhile_imp member⟩
  refine ⟨(text.toList.reverse.takeWhile (· == '\n')).length, ?_⟩
  rw [Report.dropNewlines, String.toList_ofList, ← List.reverse_replicate, ← feeds,
    ← List.reverse_append, split, List.reverse_reverse]

theorem Report.getLast?_dropNewlines (text : String) :
    (Report.dropNewlines text).toList.getLast? ≠ some '\n' := by
  rw [Report.dropNewlines, String.toList_ofList, List.getLast?_reverse]
  intro last
  have kept := List.head?_dropWhile_not (· == '\n') text.toList.reverse
  rw [last] at kept
  cases kept

/-- The report that is written tells the results. -/
theorem reported_reportEvents (render : Renderer) (results : List TestResult) :
    Reported render results (reportEvents render results) := by
  cases results with
  | nil => exact .nothing
  | cons first rest =>
    obtain ⟨feeds, rendered⟩ :=
      Report.dropNewlines_spec (render Report.template ((first :: rest).map Report.row))
    refine .shown (List.cons_ne_nil _ _) ?_ rendered (Report.getLast?_dropNewlines _)
    exact List.forall₂_map_left_iff.mpr (List.forall₂_same.mpr fun r _ => Report.row_tells r)

/-- What a failure that ends a script looks like from outside. -/
def defectEvents (setup : Setup) : Failure → List Event
  | .defect .interrupted => []
  | .defect d =>
    (if setup.settings.debug then [.dump] else []) ++ [.effect .error (Session.defectText d)]
  | .fault _ => []
  | .unfinished => []

/-- All that is pending is reported, and then nothing is. -/
theorem reportTests_eq (setup : Setup) (m : Machine) :
    ∃ m', reportTests setup m = .ok () m' ∧ m'.tests = [] ∧
      m'.events.reverse = m.events.reverse ++ reportEvents setup.render m.tests := by
  cases pending : m.tests with
  | nil =>
    refine ⟨m, ?_, pending, (List.append_nil _).symm⟩
    unfold reportTests
    rw [get_bind, pending]
    rfl
  | cons first rest =>
    refine ⟨{ m with
      events := .effect .output (Report.ofTests setup.render (first :: rest)) :: m.events
      tests := [] }, ?_, rfl, List.reverse_cons⟩
    unfold reportTests
    rw [get_bind, pending]
    rfl

namespace Session

/-- The state in which a script of a session starts. -/
def ready (session : Session) : Machine :=
  { session.machine with events := [], frames := [] }

/-- How a script of a session goes up to the report on its tests; nothing if it is not well formed. -/
def attempted (session : Session) (source : String) (name : Option String) :
    Option (EStateM.Result Failure Machine (Except Fault Value)) :=
  let (program, diagnostics) :=
    Program.ofSource session.setup.settings.testMode (name <|> session.file) source
  if diagnostics.isEmpty then
    some (attempt session.setup (Report.ofFault ⟨source, name <|> session.file⟩) program session.ready)
  else none

/-- The results that a script reports. -/
def report (session : Session) (source : String) (name : Option String) : List TestResult :=
  match session.attempted source name with
  | some (.ok _ m) => m.tests
  | _ => []

/-- The evaluations of a script, in the order in which they end. -/
def ended (session : Session) (source : String) (name : Option String) : List Config :=
  let (program, diagnostics) :=
    Program.ofSource session.setup.settings.testMode (name <|> session.file) source
  if diagnostics.isEmpty then program.chronicle session.setup session.ready else []

/-- The reports of scripts, one after another. -/
def reports (session : Session) : List (String × Option String) → List (List TestResult)
  | [] => []
  | (source, name) :: rest =>
    session.report source name :: (session.handle source name).2.reports rest

/-- The evaluations of scripts, in the order in which they end. -/
def chronicle (session : Session) : List (String × Option String) → List Config
  | [] => []
  | (source, name) :: rest =>
    session.ended source name ++ (session.handle source name).2.chronicle rest

/-- What a script shows: what it did before its report, and then the report, or the failure that
kept it from reporting. -/
def Shows (session : Session) (source : String) (name : Option String) (events : List Event) : Prop :=
  match session.attempted source name with
  | none => ∃ text, events = [.effect .error text]
  | some (.ok _ m) => ∃ shown,
      Reported session.setup.render (session.report source name) shown ∧
        events = m.events.reverse ++ shown
  | some (.error e m) => events = m.events.reverse ++ defectEvents session.setup e

/-- A program ends with a report on its tests, or with a failure, and then they stay pending. -/
theorem runProgram_attempt (session : Session) (script : Report.Script) (program : Program) :
    match attempt session.setup (Report.ofFault script) program session.machine with
    | .ok _ m =>
      (session.runProgram script program).2.tests = [] ∧
        (session.runProgram script program).2.events.reverse
          = m.events.reverse ++ reportEvents session.setup.render m.tests
    | .error e m =>
      (session.runProgram script program).2.tests = m.tests ∧
        (session.runProgram script program).2.events.reverse
          = m.events.reverse ++ defectEvents session.setup e := by
  unfold runProgram
  rw [interpret_eq]
  cases ran : attempt session.setup (Report.ofFault script) program session.machine with
  | ok result m =>
    obtain ⟨m', reported, none, shown⟩ := reportTests_eq session.setup m
    rw [bind_ok ran, bind_ok reported]
    cases result <;> exact ⟨none, shown⟩
  | error e m =>
    rw [bind_error ran]
    cases e with
    | fault f => exact ⟨rfl, (List.append_nil _).symm⟩
    | defect d =>
      -- what a defect shows comes behind everything the run has shown
      have noted : ∀ d, (Event.effect .error (defectText d) ::
            (if session.setup.settings.debug then Event.dump :: m.events else m.events)).reverse
          = m.events.reverse ++ ((if session.setup.settings.debug then [Event.dump] else [])
            ++ [.effect .error (defectText d)]) := by
        intro d
        split <;> simp
      cases d with
      | interrupted => exact ⟨rfl, (List.append_nil _).symm⟩
      | _ => exact ⟨rfl, noted _⟩
    | unfinished => exact ⟨rfl, (List.append_nil _).symm⟩

/-- The pending results of a session and the verdicts of a script are reported by the script or
still pending after it, and the report can be seen. -/
theorem handle_tests (session : Session) (source : String) (name : Option String) :
    session.report source name ++ (session.handle source name).2.machine.tests
        = session.machine.tests ++ verdicts session.setup (session.ended source name) ∧
      session.Shows source name (session.handle source name).2.events := by
  unfold Shows report attempted ended handle events
  by_cases quiet :
      (Program.ofSource session.setup.settings.testMode (name <|> session.file) source).2.isEmpty = true
  · simp only [quiet, if_true]
    -- the run starts with the results that are pending and adds its verdicts to them
    have results := tests_attempt session.setup (Report.ofFault ⟨source, name <|> session.file⟩)
      (Program.ofSource session.setup.settings.testMode (name <|> session.file) source).1 session.ready
    have ends := runProgram_attempt { session with machine := session.ready }
      ⟨source, name <|> session.file⟩
      (Program.ofSource session.setup.settings.testMode (name <|> session.file) source).1
    dsimp only at ends
    unfold finalState at results
    cases ran : attempt session.setup (Report.ofFault ⟨source, name <|> session.file⟩)
        (Program.ofSource session.setup.settings.testMode (name <|> session.file) source).1
        session.ready with
    | ok result m =>
      rw [ran] at results ends
      refine ⟨?_, _, reported_reportEvents _ m.tests, ends.2⟩
      refine Eq.trans ?_ results
      exact (congrArg (m.tests ++ ·) ends.1).trans (List.append_nil _)
    | error e m =>
      rw [ran] at results ends
      exact ⟨ends.1.trans results, ends.2⟩
  · simp only [quiet]
    exact ⟨(List.append_nil _).symm, _, rfl⟩

/-- What all scripts have reported, and what is pending after them, are the verdicts of all tests
that have ended. -/
theorem reports_append_tests (session : Session) (scripts : List (String × Option String)) :
    (session.reports scripts).flatten ++ (session.after scripts).machine.tests
      = session.machine.tests ++ verdicts session.setup (session.chronicle scripts) := by
  induction scripts generalizing session with
  | nil => exact (List.append_nil _).symm
  | cons script rest ih =>
    obtain ⟨source, name⟩ := script
    have first := (session.handle_tests source name).1
    have others := ih (session.handle source name).2
    rw [setup_handle] at others
    calc (session.reports ((source, name) :: rest)).flatten ++ (session.after ((source, name) :: rest)).machine.tests
        = session.report source name ++ (((session.handle source name).2.reports rest).flatten
            ++ ((session.handle source name).2.after rest).machine.tests) := by
          rw [reports, List.flatten_cons, List.append_assoc]
          rfl
      _ = session.machine.tests ++ verdicts session.setup (session.ended source name)
            ++ verdicts session.setup ((session.handle source name).2.chronicle rest) := by
          rw [others, ← List.append_assoc, first]
      _ = session.machine.tests ++ verdicts session.setup (session.chronicle ((source, name) :: rest)) := by
          rw [chronicle, verdicts_append, List.append_assoc]

/-- A script of a session is well formed, and running it comes to an evaluation, with everything that
has ended since the script started. -/
def Reaches (session : Session) (source : String) (name : Option String) (ended : List Config)
    (c : Config) : Prop :=
  ∃ program, Program.ofSource session.setup.settings.testMode (name <|> session.file) source
      = (program, []) ∧ program.Reaches session.setup session.ready ended c

theorem ended_of_ofSource {session : Session} {source : String} {name : Option String}
    {program : Program}
    (read : Program.ofSource session.setup.settings.testMode (name <|> session.file) source
      = (program, [])) : session.ended source name = program.chronicle session.setup session.ready := by
  unfold ended
  rw [read]
  rfl

/-- The evaluations of a script are those that the trails from its statements lead to. -/
theorem mem_ended {session : Session} {source : String} {name : Option String} {c : Config} :
    c ∈ session.ended source name ↔ ∃ s m links, session.Begins source name s m ∧
      Trail session.setup (.top session.setup s m) links c := by
  constructor
  · intro member
    cases read : Program.ofSource session.setup.settings.testMode (name <|> session.file) source with
    | mk program diagnostics =>
      cases diagnostics with
      | nil =>
        rw [ended_of_ofSource read] at member
        obtain ⟨s, m, links, reached, trail⟩ := Program.mem_chronicle.mp member
        exact ⟨s, m, links, ⟨program, read, reached⟩, trail⟩
      | cons d rest =>
        unfold ended at member
        rw [read] at member
        exact absurd member List.not_mem_nil
  · rintro ⟨s, m, links, ⟨program, read, reached⟩, trail⟩
    rw [ended_of_ofSource read]
    exact Program.mem_chronicle.mpr ⟨s, m, links, reached, trail⟩

theorem setup_after (session : Session) (scripts : List (String × Option String)) :
    (session.after scripts).setup = session.setup := by
  induction scripts generalizing session with
  | nil => rfl
  | cons script rest ih =>
    refine (ih _).trans ?_
    exact setup_handle session script.1 script.2

theorem mem_chronicle {session : Session} {scripts : List (String × Option String)} {c : Config} :
    c ∈ session.chronicle scripts ↔ ∃ earlier source name later,
      scripts = earlier ++ (source, name) :: later ∧
        c ∈ (session.after earlier).ended source name := by
  induction scripts generalizing session with
  | nil =>
    constructor
    · exact fun member => absurd member List.not_mem_nil
    · rintro ⟨earlier, source, name, later, none, -⟩
      simp at none
  | cons script rest ih =>
    obtain ⟨source, name⟩ := script
    rw [chronicle, List.mem_append, ih]
    constructor
    · rintro (here | ⟨earlier, source', name', later, rfl, member⟩)
      · exact ⟨[], source, name, rest, rfl, here⟩
      · exact ⟨(source, name) :: earlier, source', name', later, rfl, member⟩
    · rintro ⟨earlier, source', name', later, same, member⟩
      cases earlier with
      | nil =>
        cases same
        exact .inl member
      | cons first earlier =>
        cases same
        exact .inr ⟨earlier, source', name', later, rfl, member⟩

end Session

/-- Test results are neither lost nor reported twice. Every test that has ended in the course of a
session has its verdict among the reports or among the pending results, once, in the order in which
the tests ended; this holds between scripts and whenever an evaluation starts or ends in a script.
The evaluations that are considered are all those that the session comes to, and a report is seen
at the end of its script and nowhere else. -/
theorem test_results_accounted (setup : Setup) (host : Host)
    (scripts : List (String × Option String)) :
    -- between scripts
    (((Session.new setup host).reports scripts).flatten
        ++ ((Session.new setup host).after scripts).machine.tests
      = verdicts setup ((Session.new setup host).chronicle scripts)) ∧
    (∀ c, c ∈ (Session.new setup host).chronicle scripts ↔
      ∃ earlier source name later s m links, scripts = earlier ++ (source, name) :: later ∧
        ((Session.new setup host).after earlier).Begins source name s m ∧
        Trail setup (.top setup s m) links c) ∧
    -- inside the next script
    (∀ source name s m links c, ((Session.new setup host).after scripts).Begins source name s m →
      Trail setup (.top setup s m) links c →
      ∃ ended, ((Session.new setup host).after scripts).Reaches source name ended c) ∧
    (∀ source name ended c, ((Session.new setup host).after scripts).Reaches source name ended c →
      ended ++ c.chronicle setup <+: ((Session.new setup host).after scripts).ended source name ∧
      ((Session.new setup host).reports scripts).flatten ++ c.machine.tests
        = verdicts setup ((Session.new setup host).chronicle scripts ++ ended) ∧
      ((Session.new setup host).reports scripts).flatten ++ (c.finalState setup).tests
        = verdicts setup ((Session.new setup host).chronicle scripts ++ ended ++ c.chronicle setup)) ∧
    -- what is seen of it
    (∀ source name, ((Session.new setup host).after scripts).Shows source name
      (((Session.new setup host).after scripts).handle source name).2.events) := by
  have same : ((Session.new setup host).after scripts).setup = setup := Session.setup_after _ _
  have between := (Session.new setup host).reports_append_tests scripts
  refine ⟨between, fun c => ?_, ?_, ?_, fun source name => (Session.handle_tests _ source name).2⟩
  · rw [Session.mem_chronicle]
    constructor
    · rintro ⟨earlier, source, name, later, split, member⟩
      obtain ⟨s, m, links, begins, trail⟩ := Session.mem_ended.mp member
      rw [Session.setup_after] at trail
      exact ⟨earlier, source, name, later, s, m, links, split, begins, trail⟩
    · rintro ⟨earlier, source, name, later, s, m, links, split, begins, trail⟩
      refine ⟨earlier, source, name, later, split, Session.mem_ended.mpr ⟨s, m, links, begins, ?_⟩⟩
      rw [Session.setup_after]
      exact trail
  · rintro source name s m links c ⟨program, read, reached⟩ trail
    rw [same] at reached
    obtain ⟨ended, reaches⟩ := Program.reaches_of_inTurn reached trail
    refine ⟨ended, program, read, ?_⟩
    rw [same]
    exact reaches
  · rintro source name ended c ⟨program, read, reaches⟩
    have whole := Session.ended_of_ofSource read
    rw [same] at reaches whole
    have starts : c.machine.tests
        = ((Session.new setup host).after scripts).machine.tests ++ verdicts setup ended :=
      reaches.tests
    have ends : (c.finalState setup).tests = c.machine.tests ++ c.verdicts setup :=
      accounted setup c.depth c.task c.machine
    have begun : ((Session.new setup host).reports scripts).flatten ++ c.machine.tests
        = verdicts setup ((Session.new setup host).chronicle scripts ++ ended) := by
      rw [starts, ← List.append_assoc, between, verdicts_append]
      rfl
    refine ⟨?_, begun, ?_⟩
    · rw [whole]
      exact reaches.prefix_chronicle
    · rw [ends, ← List.append_assoc, begun, verdicts_append setup _ (c.chronicle setup)]
      rfl

/-- A test inside a test; the inner one fails. -/
def nestedTests : String :=
  "test \"outer\" \x7b test \"inner\" \x7b assertion: false; \x7d \x7d"

/-- A setup that runs tests, and has no modules and no built-in functions. -/
def Setup.testing : Setup :=
  ⟨{ testMode := true }, [], [], ⟨8, 8⟩, Report.filled⟩

/-- The inner test ends first, and both are reported once. While they are still to come nothing is
pending. -/
theorem test_results_accounted_nested :
    ∃ s m, (Session.new Setup.testing Host.bare).Begins nestedTests none s m ∧
      (∃ ended, (Session.new Setup.testing Host.bare).Reaches nestedTests none ended
          (.top Setup.testing s m) ∧ verdicts Setup.testing ended = []) ∧
      verdicts Setup.testing ((Session.new Setup.testing Host.bare).chronicle [(nestedTests, none)])
        = [⟨"inner", 1, some "Assertion failed."⟩, ⟨"outer", 1, none⟩] := by
  have read : Program.ofSource true none nestedTests
      = ([.test "outer" ⟨none, 1⟩ (.block [.test "inner" ⟨none, 1⟩
          (.block [.contract .assertion ⟨none, 1⟩ ⟨[.literal (.bool false)], none⟩])])], []) := by
    cbv
  obtain ⟨-, -, reached, points, -⟩ := test_results_accounted Setup.testing Host.bare []
  obtain ⟨between, -⟩ := test_results_accounted Setup.testing Host.bare [(nestedTests, none)]
  have begins : (Session.new Setup.testing Host.bare).Begins nestedTests none _ _ :=
    ⟨_, read, .first⟩
  refine ⟨_, _, begins, ?_, ?_⟩
  · obtain ⟨ended, reaches⟩ := reached _ _ _ _ _ _ begins .here
    obtain ⟨-, starts, -⟩ := points _ _ _ _ reaches
    exact ⟨ended, reaches, starts.symm⟩
  · have reported : (Session.new Setup.testing Host.bare).report nestedTests none
        = [⟨"inner", 1, some "Assertion failed."⟩, ⟨"outer", 1, none⟩] := by
      unfold Session.report Session.attempted
      rw [show Program.ofSource (Session.new Setup.testing Host.bare).setup.settings.testMode
        (none <|> (Session.new Setup.testing Host.bare).file) nestedTests = _ from read]
      decide +kernel
    -- the report has cleared what was pending
    have pending : ((Session.new Setup.testing Host.bare).handle nestedTests none).2.machine.tests
        = [] := by
      unfold Session.handle
      dsimp only
      rw [show Program.ofSource (Session.new Setup.testing Host.bare).setup.settings.testMode
        (none <|> (Session.new Setup.testing Host.bare).file) nestedTests = _ from read]
      decide +kernel
    calc verdicts Setup.testing
          ((Session.new Setup.testing Host.bare).chronicle [(nestedTests, none)])
        = [(Session.new Setup.testing Host.bare).report nestedTests none].flatten
            ++ ((Session.new Setup.testing Host.bare).handle nestedTests none).2.machine.tests :=
          between.symm
      _ = _ := by rw [reported, pending, List.flatten_singleton, List.append_nil]

end ContractScript
