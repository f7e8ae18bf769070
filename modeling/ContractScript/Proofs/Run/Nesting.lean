/-
Runs keep the scopes nested.

A run makes scopes in blocks, calls, tests and imports, and it gives namespaces to scopes in
imports. All of this happens inside of evaluations that nest, fail and are caught, so what
is shown of one evaluation is shown together with all that it asks for: the states in which
its questions are put and answered come one after another, each in a store that has grown
from the one before, with its scopes nested and its current scope there. The scopes that a
step has made for itself have to be there when it goes into them; for this a step is
looked at in states that have at least a given number of scopes.
-/
import ContractScript.Proofs.Run.Enclosure
import ContractScript.Proofs.Run.Traversal

set_option autoImplicit false

namespace ContractScript

open EvalM Course

/-! ## States one after another -/

/-- The scopes of a state are nested, and the current one is there. -/
structure Machine.Placed (m : Machine) : Prop where
  nested : m.store.Nested
  scope : m.scope < m.store.scopes.size

/-- A state comes before another, which is placed: its store has grown. -/
structure Machine.Before (m m' : Machine) : Prop where
  grown : m.store.Grown m'.store
  placed : m'.Placed

/-- What a state shows of its scopes and functions. -/
def Machine.outline (m : Machine) :
    (Array Closure × Array (OrderedMap String ScopeId × Option ScopeId)) × ScopeId :=
  (m.store.outline, m.scope)

instance : Coarse Machine.outline where
  contents _ _ _ := rfl
  binding m scope name v := Prod.ext (Store.outline_define m.store scope name v) rfl
  events _ _ := rfl
  host _ _ := rfl

namespace Machine

variable {m m₁ m' : Machine}

theorem Placed.before (h : m.Placed) : m.Before m :=
  ⟨.refl m.store, h⟩

theorem Before.trans (h : m.Before m₁) (h' : m₁.Before m') : m.Before m' :=
  ⟨h.grown.trans h'.grown, h'.placed⟩

theorem Before.of_outline (h : m.Placed) (same : m'.outline = m.outline) : m.Before m' := by
  obtain ⟨store, scope⟩ := Prod.mk.inj same
  refine ⟨.of_outline store, h.nested.of_outline store, ?_⟩
  rw [scope, Store.size_of_outline store]
  exact h.scope

/-- Another scope that is there becomes the current one. -/
theorem Placed.inScope (h : m.Placed) {scope : ScopeId} (there : scope < m.store.scopes.size) :
    m.Before { m with scope := scope } :=
  ⟨.refl m.store, h.nested, there⟩

end Machine

namespace EvalM

/-- A new scope inside of one that is there. -/
theorem newScope_before {m : Machine} (h : m.Placed) {outer : ScopeId}
    (inside : outer < m.store.scopes.size) :
    ∃ id m₁, newScope (some outer) m = .ok id m₁ ∧ m.Before m₁ ∧ id < m₁.store.scopes.size := by
  have size : (m.store.newScope (some outer)).2.scopes.size = m.store.scopes.size + 1 :=
    Array.size_push _
  have nested : (m.store.newScope (some outer)).2.Nested := by
    refine h.nested.pushScope rfl fun other found => ?_
    cases found
    exact inside
  refine ⟨_, _, rfl, ⟨.pushScope _ _, nested, ?_⟩, ?_⟩
  · show m.scope < (m.store.newScope (some outer)).2.scopes.size
    rw [size]
    exact Nat.lt_succ_of_lt h.scope
  · show m.store.scopes.size < (m.store.newScope (some outer)).2.scopes.size
    rw [size]
    exact Nat.lt_succ_self _

/-- A named import makes a scope that is newer than the current one, and a namespace of it. -/
theorem importTarget_before (setup : Setup) (space : Option Lexeme) {m : Machine} (h : m.Placed) :
    ∃ id m₁, importTarget setup space m = .ok id m₁ ∧ m.Before m₁ ∧ id < m₁.store.scopes.size := by
  cases space with
  | none => exact ⟨m.scope, m, rfl, h.before, h.scope⟩
  | some name =>
    let root := (m.store.newRoot setup.natives).2
    have size : root.scopes.size = m.store.scopes.size + 1 := Array.size_push _
    have nested : root.Nested := h.nested.pushScope rfl nofun
    have enclosing : (root.scope m.store.scopes.size).enclosing = none :=
      congrArg Scope.enclosing (Store.scope_push_size _)
    have there : m.store.scopes.size < root.scopes.size := by
      rw [size]
      exact Nat.lt_succ_self _
    have same : (root.defineSpace m.scope name.text m.store.scopes.size).scopes.size
        = root.scopes.size := Array.size_modify
    refine ⟨m.store.scopes.size,
      { m with store := root.defineSpace m.scope name.text m.store.scopes.size }, rfl,
      ⟨.trans (.pushScope _ _) (.defineSpace root _ _ _),
        nested.defineSpace name.text h.scope there enclosing, ?_⟩, ?_⟩
    · show m.scope < (root.defineSpace m.scope name.text m.store.scopes.size).scopes.size
      rw [same]
      exact Nat.lt_trans h.scope there
    · show m.store.scopes.size < (root.defineSpace m.scope name.text m.store.scopes.size).scopes.size
      rw [same]
      exact there

end EvalM

/-! ## Stages of an evaluation -/

/-- The states in which questions are put and answered come one after another. -/
inductive Stages (setup : Setup) (depth : Nat) : Machine → List Question → Machine → Prop
  | done {m m' : Machine} (ends : m.Before m') : Stages setup depth m [] m'
  | next {q : Question} {rest : List Question} {m m' : Machine} (starts : m.Before q.machine)
      (answered : q.machine.Before (q.ended setup depth))
      (further : Stages setup depth (q.ended setup depth) rest m') :
      Stages setup depth m (q :: rest) m'

namespace Stages

variable {setup : Setup} {depth : Nat} {m m₁ m' : Machine} {qs rs : List Question}

theorem before (h : Stages setup depth m qs m') : m.Before m' := by
  induction h with
  | done ends => exact ends
  | next starts answered _ ih => exact (starts.trans answered).trans ih

theorem since (h : Stages setup depth m₁ qs m') (earlier : m.Before m₁) :
    Stages setup depth m qs m' := by
  cases h with
  | done ends => exact .done (earlier.trans ends)
  | next starts answered further => exact .next (earlier.trans starts) answered further

theorem append (h : Stages setup depth m qs m₁) (h' : Stages setup depth m₁ rs m') :
    Stages setup depth m (qs ++ rs) m' := by
  induction h with
  | done ends => exact h'.since ends
  | next starts answered _ ih => exact .next starts answered (ih h')

theorem upTo (h : Stages setup depth m qs m₁) (later : m₁.Before m') :
    Stages setup depth m qs m' := by
  have whole := h.append (.done later)
  rw [List.append_nil] at whole
  exact whole

/-- A question is put after the start, and its answer comes before the end. -/
theorem around (h : Stages setup depth m qs m') {q : Question} (member : q ∈ qs) :
    m.Before q.machine ∧ q.machine.Before (q.ended setup depth) ∧
      (q.ended setup depth).Before m' := by
  induction h with
  | done => exact absurd member List.not_mem_nil
  | next starts answered further ih =>
    rcases List.mem_cons.mp member with rfl | member
    · exact ⟨starts, answered, further.before⟩
    · obtain ⟨first, answered', last⟩ := ih member
      exact ⟨(starts.trans answered).trans first, answered', last⟩

/-- The questions before one are answered before it is put, and those after it are put when it is
answered. -/
theorem order {q : Question} (h : Stages setup depth m (qs ++ q :: rs) m') :
    (∀ p ∈ qs, (p.ended setup depth).Before q.machine) ∧
      ∀ p ∈ rs, (q.ended setup depth).Before p.machine := by
  induction qs generalizing m with
  | nil =>
    cases h with
    | next _ _ further =>
      exact ⟨fun _ member => absurd member List.not_mem_nil, fun _ member => (further.around member).1⟩
  | cons p rest ih =>
    cases h with
    | next _ _ further =>
      obtain ⟨earlier, later⟩ := ih further
      refine ⟨List.forall_mem_cons.mpr ⟨?_, earlier⟩, later⟩
      exact (further.around (List.mem_append_right _ List.mem_cons_self)).1

end Stages

/-- A step that is placed, where there are so many scopes, goes through the stages of its
questions. -/
def Spans {α : Type} (setup : Setup) (depth scopes : Nat) (step : EvalM α) (course : Course) : Prop :=
  ∀ m : Machine, scopes ≤ m.store.scopes.size → m.Placed →
    Stages setup depth m (course m) (finalState step m)

namespace Spans

variable {α β : Type} {setup : Setup} {depth n : Nat} {step : EvalM α} {course : Course}

/-- A step that asks for nothing. -/
theorem quiet (h : ∀ m : Machine, m.Placed → m.Before (finalState step m)) :
    Spans setup depth n step silent :=
  fun m _ placed => .done (h m placed)

/-- A step that asks for nothing and leaves the outline alone. -/
theorem silent (kept : Keeps Machine.outline step) : Spans setup depth n step silent :=
  quiet fun m placed => .of_outline placed (kept m)

theorem bind {f : α → EvalM β} {next : α → Course} (first : Spans setup depth n step course)
    (then_ : ∀ a, Spans setup depth n (f a) (next a)) :
    Spans setup depth n (step >>= f) (course.followed step next) := by
  intro m enough placed
  have begun := first m enough placed
  rw [finalState_bind]
  unfold Course.followed Course.after
  unfold finalState at begun
  cases run : step m with
  | ok a m₁ =>
    rw [run] at begun
    have here := begun.before
    exact begun.append (then_ a m₁ (Nat.le_trans enough here.grown.size_le) here.placed)
  | error e m₁ =>
    rw [run] at begun
    exact begun.append (.done begun.before.placed.before)

theorem compositional (setup : Setup) (depth n : Nat) :
    Compositional fun _ step course => Spans setup depth n step course where
  pure a := silent (.pure a)
  key depth v := silent (.keyOf depth v)
  bind := bind

theorem after {f : α → EvalM β} {next : α → Course} (kept : Keeps Machine.outline step)
    (then_ : ∀ a, Spans setup depth n (f a) (next a)) :
    Spans setup depth n (step >>= f) (Course.after step next) :=
  bind (silent kept) then_

theorem before {f : α → EvalM β} (first : Spans setup depth n step course)
    (kept : ∀ a, Keeps Machine.outline (f a)) : Spans setup depth n (step >>= f) course :=
  (compositional setup depth n).before first fun a => silent (kept a)

/-- A step that goes on from the very state it looked at. -/
theorem getThen {f : Machine → EvalM α}
    (h : ∀ m : Machine, m.Placed → Stages setup depth m (course m) (finalState (f m) m)) :
    Spans setup depth n ((get : EvalM Machine) >>= f) course :=
  fun m _ placed => h m placed

/-- A step that makes a scope, and what follows where that scope is there. -/
theorem making {make : EvalM ScopeId} {f : ScopeId → EvalM β} {next : ScopeId → Course}
    (made : ∀ m : Machine, n ≤ m.store.scopes.size → m.Placed →
      ∃ id m₁, make m = .ok id m₁ ∧ m.Before m₁ ∧ id < m₁.store.scopes.size)
    (then_ : ∀ id, Spans setup depth (id + 1) (f id) (next id)) :
    Spans setup depth n (make >>= f) (Course.after make next) := by
  intro m enough placed
  obtain ⟨id, m₁, ran, before, there⟩ := made m enough placed
  rw [finalState_bind]
  unfold Course.after
  rw [ran]
  exact (then_ id m₁ there before.placed).since before

theorem inScope (h : Spans setup depth n step course) {scope : ScopeId} (there : scope < n) :
    Spans setup depth n (EvalM.inScope scope step) (course.inScope scope) := by
  intro m enough placed
  have entered := placed.inScope (Nat.lt_of_lt_of_le there enough)
  have inside := h { m with scope := scope } enough entered.placed
  change Stages setup depth m (course { m with scope := scope })
    (finalState (restoring (fun m' => { m' with scope := m.scope }) step) { m with scope := scope })
  rw [finalState_restoring]
  -- the scope that comes back is still there, as the store has only grown
  have back := (inside.before.grown.scope m.scope placed.scope).1
  exact (inside.since entered).upTo (inside.before.placed.inScope back)

theorem inImport (h : Spans setup depth n step course) (name : String) :
    Spans setup depth n (EvalM.inImport name step)
      (fun m => course { m with importing := name :: m.importing }) := by
  intro m enough placed
  have entered : m.Before { m with importing := name :: m.importing } := .of_outline placed rfl
  have inside := h { m with importing := name :: m.importing } enough entered.placed
  change Stages setup depth m _
    (finalState (restoring (fun m' => { m' with importing := m.importing, directory := m.directory })
      step) { m with importing := name :: m.importing })
  rw [finalState_restoring]
  exact (inside.since entered).upTo (.of_outline inside.before.placed rfl)

theorem catchFault (h : Spans setup depth n step course) :
    Spans setup depth n (EvalM.catchFault step) course := by
  intro m enough placed
  rw [finalState_catchFault]
  exact h m enough placed

theorem asTest (h : Spans setup depth n step course) (name : String) (line : Nat) :
    Spans setup depth n (EvalM.asTest name line step) course :=
  h.catchFault.before fun _ => .modify fun _ => rfl

/-- A step in a new scope inside the current one. -/
theorem inNewScope {f : EvalM α → EvalM β} (swaps : ∀ scope, Spans setup depth (scope + 1)
      (f (EvalM.inScope scope step)) (course.inScope scope)) :
    Spans setup depth n
      (do
        let m ← get
        let scope ← newScope (some m.scope)
        f (EvalM.inScope scope step))
      course.inNewScope := by
  intro m enough placed
  exact making (n := m.store.scopes.size)
    (fun m' enough' placed' => newScope_before placed' (Nat.lt_of_lt_of_le placed.scope enough'))
    swaps m (Nat.le_refl _) placed

end Spans

/-! ## Evaluation -/

/-- Every evaluation with some number of levels leads from states that are placed to states that
are, in stores that have grown. -/
def Settled (setup : Setup) (depth : Nat) : Prop :=
  ∀ task m, Machine.Placed m → m.Before (Config.finalState setup ⟨depth, task, m⟩)

theorem Settled.ask {setup : Setup} {depth n : Nat} {α : Type} {step : EvalM α} {task : Task}
    (h : Settled setup depth) (link : Link)
    (same : ∀ m, finalState step m = Config.finalState setup ⟨depth, task, m⟩) :
    Spans setup depth n step (ask link task) := by
  intro m _ placed
  have answered := h task m placed
  rw [same]
  exact .next placed.before answered (.done answered.placed.before)

/-- A function refers to the scope in which it is declared, which is there. -/
theorem function_before {setup : Setup} {depth : Nat} {m : Machine} (placed : m.Placed) (signature : Signature) (body : List Stmt) :
    m.Before (finalState (execute setup (depth + 1) (.function signature body)) m) := by
  have made : m.Before { m with store := (m.store.newFunction ⟨signature, body, m.scope⟩).2 } :=
    ⟨.newFunction _ _, placed.nested.newFunction placed.scope, placed.scope⟩
  exact made.trans (.of_outline made.placed (Prod.ext (Store.outline_define _ _ _ _) rfl))

section Level

variable {setup : Setup} {depth : Nat} (ih : Settled setup depth)
include ih

theorem Spans.traversal (n : Nat) :
    Traversal setup depth Machine.outline fun _ step course => Spans setup depth n step course where
  silent := .silent
  ask := ih.ask
  bind := .bind

theorem Value.spans_call (place : Place) (f : Value) (arguments : List Value) :
    Spans setup depth 0 (callValue setup (depth + 1) place f arguments)
      (f.callCourse place arguments) := by
  rw [callValue_succ]
  refine .getThen fun m placed => ?_
  unfold Value.callCourse
  cases found : m.store.callable? f with
  | none => exact .done placed.before
  | some callable =>
    obtain ⟨name, arity⟩ := callable
    dsimp only
    by_cases fits : arguments.length = arity
    · rw [if_pos fits, if_neg (by simpa using fits), finalState_inCall]
      have entered : m.Before { m with frames := ⟨name, place⟩ :: m.frames } := .of_outline placed rfl
      have asked : Spans setup depth 0 (invoke setup depth f arguments)
          (ask (.call ⟨name, place⟩) (.invoke f arguments)) := ih.ask _ fun _ => rfl
      have inside := asked
        { m with frames := ⟨name, place⟩ :: m.frames } (Nat.zero_le _) entered.placed
      exact (inside.since entered).upTo (.of_outline inside.before.placed rfl)
    · rw [if_neg fits, if_pos (by simpa using fits)]
      exact .done placed.before

theorem Value.spans_invoke (f : Value) (arguments : List Value) :
    Spans setup depth 0 (invoke setup (depth + 1) f arguments)
      (f.invokeCourse setup depth arguments) := by
  cases f with
  | native g => exact .silent (.native setup depth g arguments)
  | function id =>
    refine .getThen fun m placed => ?_
    unfold Value.invokeCourse
    dsimp only
    cases found : m.store.closure? id with
    | none => exact .done placed.before
    | some c =>
      have there := placed.nested.closure id c found
      refine (?_ : Spans setup depth (c.scope + 1) _ (c.course setup depth arguments)) m there placed
      -- the scope of the call is newer than the one in which the function was declared
      refine .making (fun m enough placed => newScope_before placed enough) fun scope =>
        .after (.bindArguments _ _ _) fun _ => ?_
      have through := Spans.traversal ih (scope + 1)
      have conditions (es : List Expr) := (through.conditions es).inScope (Nat.lt_succ_self scope)
      have body := (through.statements .body c.body).inScope (Nat.lt_succ_self scope)
      refine .bind (conditions _) fun before => ?_
      cases before with
      | false => exact .silent fun _ => rfl
      | true =>
        refine .bind body fun signal => .after (.define _ _ _) fun _ =>
          .before (conditions _) fun after => ?_
        exact .orFail (.pure _)
  | _ => exact .silent (.pure _)

theorem Stmt.spans (s : Stmt) :
    Spans setup depth 0 (execute setup (depth + 1) s) (s.course setup depth) := by
  cases s with
  | block body =>
    refine Spans.inNewScope (f := id) fun scope => ?_
    exact ((Spans.traversal ih (scope + 1)).statements .inner body).inScope (Nat.lt_succ_self scope)
  | function signature body => exact .quiet fun m placed => function_before placed signature body
  | test name place body =>
    refine .after (.trace setup _) fun _ =>
      Spans.inNewScope (f := fun step => asTest name place.line step >>= fun _ => pure Signal.next)
        fun scope => ?_
    have inside := ((Spans.traversal ih (scope + 1)).execute .test body).inScope
      (Nat.lt_succ_self scope)
    exact (inside.asTest name place.line).before fun _ => .pure _
  | _ => exact (Spans.traversal ih 0).statement rfl

theorem spans_load (path : String) (place : Place) (space : Option Lexeme) :
    Spans setup depth 0 (importModule setup (depth + 1) path place space)
      (loadCourse setup depth path place space) := by
  rw [importModule_succ]
  intro m enough placed
  -- the link of the questions is about the state in which the import starts
  refine (Spans.after (.findModule _ _ _) fun source => .after (.trace _ _) fun _ => .inImport
    (.after (.moduleDeclarations _ _ _) fun program =>
      .making (fun _ _ placed => importTarget_before setup space placed) fun target =>
      .after ?_ fun _ => .before
        (.inScope ((Spans.traversal ih (target + 1)).statements _ program) (Nat.lt_succ_self target))
        fun _ => .pure _) source.name) m enough placed
  cases source.directory with
  | none => exact .pure _
  | some dir => exact .modify fun _ => rfl

end Level

/-- The stages of a task, with the levels below it settled. -/
theorem Task.stages {setup : Setup} {depth : Nat} (ih : Settled setup depth) (task : Task)
    {m : Machine} (placed : m.Placed) :
    Stages setup depth m (task.course setup depth m)
      (Config.finalState setup ⟨depth + 1, task, m⟩) := by
  have enough : 0 ≤ m.store.scopes.size := Nat.zero_le _
  cases task with
  | evaluate e => exact (Spans.traversal ih 0).expression e m enough placed
  | call place f arguments => exact f.spans_call ih place arguments m enough placed
  | invoke f arguments => exact f.spans_invoke ih arguments m enough placed
  | execute s => exact s.spans ih m enough placed
  | load path place space => exact spans_load ih path place space m enough placed

theorem settled (setup : Setup) (depth : Nat) : Settled setup depth := by
  induction depth with
  | zero =>
    intro task m placed
    cases task <;> exact placed.before
  | succ depth ih => exact fun task m placed => (task.stages ih placed).before

/-- An evaluation that another one asks for starts after that one and ends before it. -/
theorem Asks.within {setup : Setup} {c c' : Config} {link : Link} (asks : Asks setup c link c')
    (placed : c.machine.Placed) :
    c.machine.Before c'.machine ∧ (c'.finalState setup).Before (c.finalState setup) := by
  obtain ⟨depth, task, m⟩ := c
  have asked := Config.mem_asked.mpr asks
  unfold Config.asked at asked
  cases depth with
  | zero => exact absurd asked List.not_mem_nil
  | succ depth =>
    obtain ⟨q, member, same⟩ := List.mem_map.mp asked
    cases same
    obtain ⟨starts, -, ends⟩ := (task.stages (settled setup depth) placed).around member
    exact ⟨starts, ends⟩

theorem Trail.within {setup : Setup} {c c' : Config} {links : List Link}
    (trail : Trail setup c links c') (placed : c.machine.Placed) :
    c.machine.Before c'.machine ∧ (c'.finalState setup).Before (c.finalState setup) := by
  induction trail with
  | @here c => exact ⟨placed.before, (settled setup c.depth c.task c.machine placed).placed.before⟩
  | step asks _ ih =>
    obtain ⟨starts, ends⟩ := asks.within placed
    obtain ⟨starts', ends'⟩ := ih starts.placed
    exact ⟨starts.trans starts', ends'.trans ends⟩

/-! ## Sessions -/

/-- What a program asks evaluation for. -/
def Program.course (setup : Setup) (program : Program) : Course :=
  inTurn (fun s => ask .part s.topTask) (runTop setup) (fun _ => true) program

section Programs

variable (setup : Setup)

theorem spans_runTop (s : Stmt) :
    Spans setup setup.limits.depth 0 (runTop setup s) (ask .part s.topTask) := by
  have ih := settled setup setup.limits.depth
  unfold runTop
  split
  · refine .before (ih.ask .part fun _ => rfl) fun v => ?_
    split
    · exact .bind (.shown _ _) fun _ => .bind (.note _) fun _ => .pure _
    · exact .pure _
  · rename_i other
    have task : s.topTask = .execute s := by
      cases s with
      | expression e => exact absurd rfl (other e)
      | _ => rfl
    rw [task]
    exact .before (ih.ask .part fun _ => rfl) fun _ => .pure _

theorem spans_runAll (program : Program) : ∀ last : Value,
    Spans setup setup.limits.depth 0 (runAll setup last program) (program.course setup) := by
  induction program with
  | nil => exact fun _ => .silent (.pure _)
  | cons s rest ih => exact fun _ => .bind (spans_runTop setup s) fun v => ih v

theorem spans_interpret (describe : Fault → String) (program : Program) :
    Spans setup setup.limits.depth 0 (interpret setup describe program) (program.course setup) := by
  have reported : Keeps Machine.outline (reportTests setup) := .reportTests setup fun _ _ => rfl
  refine .before (spans_runAll setup program .nil).catchFault fun result => ?_
  cases result with
  | ok v => exact .bind reported fun _ => .pure _
  | error f =>
    exact .bind (.trace setup _) fun _ => .bind (.note _) fun _ => .bind reported fun _ => .pure _

end Programs

namespace Session

/-- What is done about a fault and about the tests adds events and takes the pending results away, and
does nothing else. -/
theorem view_interpret {γ : Type} {view : Machine → γ} [Unheard view]
    (unseen : ∀ (m : Machine) (tests : List TestResult), view { m with tests } = view m)
    (setup : Setup) (describe : Fault → String) (program : Program) (m : Machine) :
    view (finalState (interpret setup describe program) m)
      = view (finalState (runAll setup .nil program) m) := by
  unfold interpret
  have reported : Keeps view (reportTests setup) := .reportTests setup unseen
  refine (Keeps.view_bind (fun result => ?_) m).trans (congrArg view (finalState_catchFault _ m))
  cases result with
  | ok v => exact .bind reported fun _ => .pure _
  | error f =>
    exact .bind (.trace setup _) fun _ => .bind (.note _) fun _ => .bind reported fun _ => .pure _

/-- A report adds events, and nothing else. -/
theorem view_runProgram {γ : Type} {view : Machine → γ} [Unheard view] (session : Session)
    (script : Report.Script) (program : Program) :
    view (session.runProgram script program).2
      = view (finalState (interpret session.setup (Report.ofFault script) program)
          session.machine) := by
  unfold runProgram finalState
  cases interpret session.setup (Report.ofFault script) program session.machine with
  | ok result m => cases result <;> rfl
  | error e m =>
    cases e with
    | fault f => rfl
    | defect d =>
      cases d with
      | interrupted => rfl
      | _ => exact Unheard.events m _
    | unfinished => rfl

/-- A script leads from a state that is placed to one that is, in a store that has grown. -/
theorem handle_before {session : Session} (placed : session.machine.Placed) (source : String)
    (name : Option String) : session.machine.Before (session.handle source name).2.machine := by
  have fresh : session.machine.Before { session.machine with events := [], frames := [] } :=
    .of_outline placed rfl
  unfold handle
  dsimp only
  split
  · have ran := (spans_interpret session.setup (Report.ofFault ⟨source, name <|> session.file⟩)
      (Program.ofSource session.setup.settings.testMode (name <|> session.file) source).1
      { session.machine with events := [], frames := [] } (Nat.zero_le _) fresh.placed).before
    exact (fresh.trans ran).trans (.of_outline ran.placed (view_runProgram _ _ _))
  · exact .of_outline placed rfl

/-- The statements that a script comes to start after it and end before it. -/
theorem Begins.within {session : Session} (placed : session.machine.Placed) {source : String}
    {name : Option String} {s : Stmt} {m : Machine} (begins : session.Begins source name s m) :
    session.machine.Before m ∧ (Config.finalState session.setup (.top session.setup s m)).Before
      (session.handle source name).2.machine := by
  obtain ⟨program, read, reached⟩ := begins
  have fresh : session.machine.Before { session.machine with events := [], frames := [] } :=
    .of_outline placed rfl
  have stages := spans_interpret session.setup (Report.ofFault ⟨source, name <|> session.file⟩) program
    { session.machine with events := [], frames := [] } (Nat.zero_le _) fresh.placed
  have asked : (⟨.part, s.topTask, m⟩ : Question) ∈ program.course session.setup
      { session.machine with events := [], frames := [] } := by
    unfold Program.course
    rw [mem_inTurn (P := fun _ => True) fun _ => iff_of_true rfl trivial]
    exact ⟨s, m, reached, mem_ask.mpr rfl⟩
  obtain ⟨starts, -, ends⟩ := stages.around asked
  refine ⟨fresh.trans starts, ends.trans (.of_outline ends.placed ?_)⟩
  unfold handle
  dsimp only
  rw [read]
  exact view_runProgram _ _ _

theorem placed_new (setup : Setup) (host : Host) : (Session.new setup host).machine.Placed := by
  have empty : Store.empty.Nested := ⟨nofun, nofun, nofun⟩
  exact ⟨empty.pushScope rfl nofun, Nat.zero_lt_one⟩

theorem placed_after {session : Session} (placed : session.machine.Placed)
    (scripts : List (String × Option String)) : (session.after scripts).machine.Placed := by
  induction scripts generalizing session with
  | nil => exact placed
  | cons script rest ih => exact ih (handle_before placed script.1 script.2).placed

end Session

end ContractScript
