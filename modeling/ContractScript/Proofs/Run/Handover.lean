/-
What questions hand on from one to the next.

An evaluation changes some parts of the state only through others that it asks for. The files are
such a part, since only the call of a built-in function can write, and the results of tests are, apart
from the verdict that a test adds itself. Of such a part each question finds what the question before
it has left, and what the last one leaves is there when the evaluation ends. This is shown for any
view of the state that shows neither the surroundings, which are swapped around questions, nor the
store and the events, which an evaluation changes by itself.
-/
import ContractScript.Proofs.Run.Traversal

set_option autoImplicit false

namespace ContractScript

open EvalM Course

/-! ## Questions one after another -/

section Handed

variable {γ : Type}

/-- A view that shows nothing of the surroundings. -/
class Detached (view : Machine → γ) : Prop where
  surroundings : ∀ (m : Machine) (scope : ScopeId) (frames : List Frame) (directory : Option String)
    (importing : List String),
    view { m with scope, frames, directory, importing } = view m

/-- Questions are put one after another. The first finds something, each other one finds what the one
before has left, and at the end there is what the last has left. -/
inductive Handed (view : Machine → γ) (setup : Setup) (depth : Nat) : γ → List Question → γ → Prop
  | done {s : γ} : Handed view setup depth s [] s
  | next {q : Question} {rest : List Question} {s s' : γ} (starts : view q.machine = s)
      (further : Handed view setup depth (view (q.ended setup depth)) rest s') :
      Handed view setup depth s (q :: rest) s'

theorem Handed.append {view : Machine → γ} {setup : Setup} {depth : Nat} {s s₁ s' : γ}
    {qs rs : List Question} (h : Handed view setup depth s qs s₁)
    (h' : Handed view setup depth s₁ rs s') : Handed view setup depth s (qs ++ rs) s' := by
  induction h with
  | done => exact h'
  | next starts _ ih => exact .next starts (ih h')

theorem Handed.split {view : Machine → γ} {setup : Setup} {depth : Nat} {s s' : γ}
    {qs rs : List Question} (h : Handed view setup depth s (qs ++ rs) s') :
    ∃ s₁, Handed view setup depth s qs s₁ ∧ Handed view setup depth s₁ rs s' := by
  induction qs generalizing s with
  | nil => exact ⟨s, .done, h⟩
  | cons q rest ih =>
    cases h with
    | next starts further =>
      obtain ⟨s₁, first, last⟩ := ih further
      exact ⟨s₁, .next starts first, last⟩

/-- A step hands what it finds to its questions, and ends with what the last of them has left. -/
def Hands {α : Type} (view : Machine → γ) (setup : Setup) (depth : Nat) (step : EvalM α)
    (course : Course) : Prop :=
  ∀ m : Machine, Handed view setup depth (view m) (course m) (view (finalState step m))

end Handed

namespace Hands

variable {α β γ : Type} {view : Machine → γ} {setup : Setup} {depth : Nat} {step : EvalM α}
  {course : Course}

theorem silent (kept : Keeps view step) : Hands view setup depth step silent := by
  intro m
  rw [kept m]
  exact .done

theorem ask {task : Task} (link : Link)
    (same : ∀ m, finalState step m = Config.finalState setup ⟨depth, task, m⟩) :
    Hands view setup depth step (Course.ask link task) := by
  intro m
  rw [same]
  exact .next rfl .done

theorem bind {f : α → EvalM β} {next : α → Course} (first : Hands view setup depth step course)
    (then_ : ∀ a, Hands view setup depth (f a) (next a)) :
    Hands view setup depth (step >>= f) (course.followed step next) := by
  intro m
  have begun := first m
  rw [finalState_bind]
  unfold Course.followed Course.after
  unfold finalState at begun
  cases run : step m with
  | ok a m₁ =>
    rw [run] at begun
    exact begun.append (then_ a m₁)
  | error e m₁ =>
    rw [run] at begun
    exact begun.append .done

theorem traversal (view : Machine → γ) (setup : Setup) (depth : Nat) :
    Traversal setup depth view fun _ step course => Hands view setup depth step course where
  silent := silent
  ask := ask
  bind := bind

theorem after {f : α → EvalM β} {next : α → Course} (kept : Keeps view step)
    (then_ : ∀ a, Hands view setup depth (f a) (next a)) :
    Hands view setup depth (step >>= f) (Course.after step next) :=
  (traversal view setup depth).after kept then_

theorem before {f : α → EvalM β} (first : Hands view setup depth step course)
    (kept : ∀ a, Keeps view (f a)) : Hands view setup depth (step >>= f) course :=
  (traversal view setup depth).before first kept

/-- A step that goes on from the very state it looked at. -/
theorem getThen {f : Machine → EvalM α}
    (h : ∀ m, Handed view setup depth (view m) (course m) (view (finalState (f m) m))) :
    Hands view setup depth ((get : EvalM Machine) >>= f) course :=
  h

theorem catchFault (h : Hands view setup depth step course) :
    Hands view setup depth (EvalM.catchFault step) course := by
  intro m
  rw [finalState_catchFault]
  exact h m

/-- A step with other surroundings, which are put back. -/
theorem swapped [Detached view] (h : Hands view setup depth step course) {enter : Machine → Machine}
    {leave : Machine → Machine → Machine} (enters : ∀ m, view (enter m) = view m)
    (leaves : ∀ m m', view (leave m m') = view m') (m : Machine) :
    Handed view setup depth (view m) (course (enter m)) (view (leave m (finalState step (enter m)))) := by
  rw [leaves, ← enters m]
  exact h (enter m)

theorem inScope [Detached view] (h : Hands view setup depth step course) (scope : ScopeId) :
    Hands view setup depth (EvalM.inScope scope step) (course.inScope scope) := by
  intro m
  change Handed view setup depth _ _
    (view (finalState (restoring (fun m' => { m' with scope := m.scope }) step) _))
  rw [finalState_restoring]
  exact h.swapped (fun m => Detached.surroundings m scope _ _ _)
    (fun m m' => Detached.surroundings m' m.scope _ _ _) m

theorem inImport [Detached view] (h : Hands view setup depth step course) (name : String) :
    Hands view setup depth (EvalM.inImport name step)
      (fun m => course { m with importing := name :: m.importing }) := by
  intro m
  change Handed view setup depth _ _ (view (finalState (restoring
    (fun m' => { m' with importing := m.importing, directory := m.directory }) step) _))
  rw [finalState_restoring]
  exact h.swapped (fun m => Detached.surroundings m _ _ _ (name :: m.importing))
    (fun m m' => Detached.surroundings m' _ _ m.directory m.importing) m

theorem inCall [Detached view] (h : Hands view setup depth step course) (frame : Frame)
    (close : Lexeme) :
    Hands view setup depth (EvalM.inCall frame close step)
      (fun m => course { m with frames := frame :: m.frames }) := by
  intro m
  rw [finalState_inCall]
  exact h.swapped (fun m => Detached.surroundings m _ (frame :: m.frames) _ _)
    (fun m m' => Detached.surroundings m' _ m.frames _ _) m

/-- A step in a new scope inside the current one. -/
theorem inNewScope [Material view] {f : EvalM α → EvalM β}
    (swaps : ∀ scope, Hands view setup depth (f (EvalM.inScope scope step)) (course.inScope scope)) :
    Hands view setup depth
      (do
        let m ← get
        let scope ← newScope (some m.scope)
        f (EvalM.inScope scope step))
      course.inNewScope :=
  getThen fun m => after (.newScope _) swaps m

end Hands

/-! ## Evaluation -/

section Level

variable {γ : Type} (view : Machine → γ) [Detached view] (setup : Setup) (depth : Nat)

theorem Value.hands_call (place : Place) (f : Value) (arguments : List Value) :
    Hands view setup depth (callValue setup (depth + 1) place f arguments)
      (f.callCourse place arguments) := by
  rw [callValue_succ]
  refine .getThen fun m => ?_
  unfold Value.callCourse
  cases found : m.store.callable? f with
  | none => exact .done
  | some callable =>
    obtain ⟨name, arity⟩ := callable
    dsimp only
    by_cases fits : arguments.length = arity
    · rw [if_pos fits, if_neg (by simpa using fits)]
      -- the frame is put on for the question only
      have asked : Hands view setup depth (invoke setup depth f arguments)
          (Course.ask (.call ⟨name, place⟩) (.invoke f arguments)) := .ask _ fun _ => rfl
      exact asked.inCall ⟨name, place⟩ _ m
    · rw [if_neg fits, if_pos (by simpa using fits)]
      exact .done

variable [Material view]

/-- A call of a value with its frame in place. A built-in function asks for nothing, so it has to
leave things as they are. -/
theorem Value.hands_invoke {f : Value} {arguments : List Value}
    (native : ∀ g, f = .native g → Keeps view (g.call setup depth arguments)) :
    Hands view setup depth (invoke setup (depth + 1) f arguments)
      (f.invokeCourse setup depth arguments) := by
  have through := Hands.traversal view setup depth
  cases f with
  | native g => exact .silent (native g rfl)
  | function id =>
    refine .getThen fun m => ?_
    unfold Value.invokeCourse
    dsimp only
    cases m.store.closure? id with
    | none => exact .done
    | some c =>
      refine (?_ : Hands view setup depth _ (c.course setup depth arguments)) m
      -- the conditions and the body are run in the scope of the call, which is made before them
      refine .after (.newScope _) fun scope => .after (.bindArguments _ _ _) fun _ =>
        .bind ((through.conditions _).inScope scope) fun before => ?_
      cases before with
      | false => exact .silent fun _ => rfl
      | true =>
        refine .bind ((through.statements .body c.body).inScope scope) fun signal =>
          .after (.define _ _ _) fun _ =>
          .before ((through.conditions _).inScope scope) fun after => ?_
        exact .orFail (.pure _)
  | _ => exact .silent (.pure _)

/-- A test adds its verdict itself, so that has to go unseen. -/
theorem Stmt.hands {s : Stmt} (test : ∀ name place body, s = .test name place body →
      ∀ (m : Machine) (tests : List TestResult), view { m with tests } = view m) :
    Hands view setup depth (execute setup (depth + 1) s) (s.course setup depth) := by
  have through := Hands.traversal view setup depth
  cases s with
  | block body =>
    exact Hands.inNewScope (f := id) fun scope => (through.statements .inner body).inScope scope
  | function signature body =>
    exact .silent (.bind .get fun _ => .bind (.newFunction _) fun _ => .bind (.defineHere _ _) fun _ => .pure _)
  | test name place body =>
    have unseen := test name place body rfl
    refine .after (.trace setup _) fun _ =>
      Hands.inNewScope (f := fun step => asTest name place.line step >>= fun _ => pure Signal.next)
        fun scope => ?_
    have inside := ((through.execute .test body).inScope scope).catchFault
    exact (inside.before fun _ => .modify fun m => unseen m _).before fun _ => .pure _
  | _ => exact through.statement rfl

theorem hands_load (path : String) (place : Place) (space : Option Lexeme) :
    Hands view setup depth (importModule setup (depth + 1) path place space)
      (loadCourse setup depth path place space) := by
  rw [importModule_succ]
  intro m
  have through := Hands.traversal view setup depth
  -- the link of the questions is about the state in which the import starts
  refine (Hands.after (.findModule _ _ _) fun source => .after (.trace _ _) fun _ => .inImport
    (.after (.moduleDeclarations _ _ _) fun program => .after (.importTarget _ _) fun target =>
      .after ?_ fun _ => .before ((through.statements _ program).inScope target)
        fun _ => .pure _) source.name) m
  cases source.directory with
  | none => exact .pure _
  | some dir => exact .modify fun m => Detached.surroundings m _ _ _ _

/-- What a task finds is handed to its questions, and what they have left is there when it ends, as
long as this is so for the expression or the built-in function that it may be about. -/
theorem Task.handed_if {task : Task}
    (expression : ∀ e, task = .evaluate e →
      Hands view setup depth (ContractScript.evaluate setup (depth + 1) e) (e.course setup depth))
    (native : ∀ g arguments, task = .invoke (.native g) arguments →
      Keeps view (g.call setup depth arguments))
    (test : ∀ name place body, task = .execute (.test name place body) →
      ∀ (m : Machine) (tests : List TestResult), view { m with tests } = view m) (m : Machine) :
    Handed view setup depth (view m) (task.course setup depth m)
      (view (Config.finalState setup ⟨depth + 1, task, m⟩)) := by
  cases task with
  | evaluate e => exact expression e rfl m
  | call place f arguments => exact Value.hands_call view setup depth place f arguments m
  | invoke f arguments =>
    refine Value.hands_invoke view setup depth (fun g same => ?_) m
    exact native g arguments (same ▸ rfl)
  | execute s =>
    refine Stmt.hands view setup depth (fun name place body same => ?_) m
    exact test name place body (same ▸ rfl)
  | load path place space => exact hands_load view setup depth path place space m

end Level

/-- What a task finds is handed to its questions, and what they have left is there when it ends. -/
theorem Task.handed {γ : Type} (view : Machine → γ) [Detached view] [Storeless view] (setup : Setup)
    (depth : Nat) {task : Task}
    (native : ∀ g arguments, task = .invoke (.native g) arguments →
      Keeps view (g.call setup depth arguments))
    (test : ∀ name place body, task = .execute (.test name place body) →
      ∀ (m : Machine) (tests : List TestResult), view { m with tests } = view m) (m : Machine) :
    Handed view setup depth (view m) (task.course setup depth m)
      (view (Config.finalState setup ⟨depth + 1, task, m⟩)) :=
  Task.handed_if view setup depth (fun e _ => (Hands.traversal view setup depth).expression e) native
    test m

end ContractScript
