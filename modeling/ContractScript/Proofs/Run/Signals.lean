/-
No signal is lost.

A statement ends with a signal, and some places drop the signal they get: the top level,
the body of a test, the declarations of a module, and a call, which only looks for a
value. Dropping is harmless because nothing but `next` ever arrives there. This joins two
facts from opposite ends of the language. The parser lets a `break` or `return` stand only
inside a loop or a function, with functions and tests shielding from what is around them;
and evaluation passes a signal on through exactly the statements that the parser looked
through. Function values carry the first fact through the store, from the declaration to
the calls.

For a `return` more is true: it is executed on behalf of a call of the function it stands
in, and what the call does next is to check its postcondition.
-/
import Mathlib
import ContractScript.Proofs.Program.Dropping
import ContractScript.Proofs.Run.Trail

set_option autoImplicit false

namespace ContractScript

open EvalM

/-! ## Signals that fit where a statement stands -/

/-- A signal that a statement may end with, given what is around the statement. -/
def Signal.Fits (inLoop inFunction : Bool) : Signal → Prop
  | .next => True
  | .leave => inLoop = true
  | .yield _ => inFunction = true

theorem Signal.Fits.eq_next {signal : Signal} (h : signal.Fits false false) : signal = .next := by
  cases signal with
  | next => rfl
  | leave => cases h
  | yield v => cases h

theorem Signal.Fits.ne_leave {signal : Signal} {inFunction : Bool} (h : signal.Fits false inFunction) :
    signal ≠ .leave := by
  rintro rfl
  cases h

namespace EvalM

/-- Every result of a step is as demanded, whatever the state. -/
abbrev Yields {α : Type} (post : α → Prop) (step : EvalM α) : Prop :=
  Ensures (fun _ => True) post step

theorem Ensures.ofAny {α : Type} (step : EvalM α) : Yields (fun _ => True) step := by
  intro m _
  cases step m <;> trivial

/-- What is done first does not matter if what follows always yields what is demanded. -/
theorem Ensures.behind {α β : Type} {post : β → Prop} {step : EvalM α} {f : α → EvalM β}
    (h : ∀ a, Yields post (f a)) : Yields post (step >>= f) :=
  .bind (.ofAny step) fun a _ => h a

theorem Yields.inScope {α : Type} {post : α → Prop} {step : EvalM α} {scope : ScopeId}
    (h : Yields post step) : Yields post (inScope scope step) := by
  intro m _
  unfold EvalM.inScope restoring
  dsimp only
  cases run : step { m with scope := scope } with
  | ok a m' => exact ⟨trivial, (h.of_ok trivial run).2⟩
  | error e m' => trivial

theorem Yields.sequence {run : Stmt → EvalM Signal} {inLoop inFunction : Bool} {body : List Stmt}
    (h : ∀ s ∈ body, Yields (Signal.Fits inLoop inFunction) (run s)) :
    Yields (Signal.Fits inLoop inFunction) (sequence run body) := by
  induction body with
  | nil => exact .pure trivial
  | cons s rest ih =>
    rw [List.forall_mem_cons] at h
    refine .bind h.1 fun signal fits => ?_
    cases signal with
    | next => exact ih h.2
    | leave => exact .pure fits
    | yield v => exact .pure fits

/-- A loop takes the signals that leave it, so what is around it need not be a loop. -/
theorem Yields.iterate {condition : EvalM Bool} {body : EvalM Signal} {inLoop inFunction : Bool}
    (h : Yields (Signal.Fits true inFunction) body) (rounds : Nat) :
    Yields (Signal.Fits inLoop inFunction) (iterate condition body rounds) := by
  induction rounds with
  | zero => exact .throw _
  | succ rounds ih =>
    refine .behind fun holds => ?_
    split
    · refine .bind h fun signal fits => ?_
      cases signal with
      | next => exact ih
      | leave => exact .pure trivial
      | yield v => exact .pure fits
    · exact .pure trivial

end EvalM

/-- A statement ends with a signal that fits where it stands. -/
theorem execute_fits (setup : Setup) (depth : Nat) : ∀ {s : Stmt} {inLoop inFunction : Bool},
    s.Permitted inLoop inFunction →
      Yields (Signal.Fits inLoop inFunction) (execute setup depth s) := by
  induction depth with
  | zero => exact fun _ => .throw _
  | succ depth ih =>
    intro s inLoop inFunction h
    cases s with
    | expression value => exact .behind fun _ => .pure trivial
    | print value =>
      exact .behind fun _ => .behind fun _ => .behind fun _ =>
        .pure trivial
    | var name value =>
      cases value with
      | none => exact .behind fun _ => .behind fun _ => .pure trivial
      | some e => exact .behind fun _ => .behind fun _ => .pure trivial
    | block body =>
      rw [Stmt.Permitted, Stmt.allPermitted_iff] at h
      exact .behind fun _ => .behind fun _ =>
        Yields.inScope (Yields.sequence fun s hs => ih (h s hs))
    | branch condition whenTrue whenFalse =>
      refine .behind fun _ => ?_
      split
      · exact ih h.2.1
      · cases whenFalse with
        | none => exact .pure trivial
        | some other => exact ih h.2.2
    -- a loop takes the signal to leave it, so its body may send one
    | loop condition body => exact Yields.iterate (ih h.2) _
    | leave place => exact .pure h
    | yield place value =>
      cases value with
      | none => exact .pure h.1
      | some e => exact .behind fun _ => .pure h.1
    | function signature body =>
      exact .behind fun _ => .behind fun _ => .behind fun _ =>
        .pure trivial
    | contract kind place clauses =>
      refine .behind fun holds => ?_
      split
      · exact .pure trivial
      · cases kind with
        | assertion => exact .throw _
        | check => exact .behind fun _ => .pure trivial
    | load path place space => exact .behind fun _ => .pure trivial
    | test name place body =>
      exact .behind fun _ => .behind fun _ => .behind fun _ =>
        .behind fun _ => .pure trivial

/-! ## Function values keep what the parser checked -/

/-- The discipline of programs that the parser let through: every function in the store has a body
in which each `break` and `return` is where it may be. -/
def Discipline.permitted (setup : Setup) : Discipline setup where
  store s := ∀ id c, s.closure? id = some c → Stmt.AllPermitted false true c.body
  host _ := True
  tests _ := True
  value _ := True
  scope _ := True
  code s := ∃ inLoop inFunction, s.Permitted inLoop inFunction
  constant _ _ := trivial
  items _ _ _ _ _ _ := trivial
  entries _ _ _ _ _ _ := ⟨trivial, trivial⟩
  closure s id c hs _ found := by
    refine ⟨trivial, fun t ht => ⟨false, true, ?_⟩⟩
    exact (Stmt.allPermitted_iff false true c.body).mp (hs id c found) t ht
  bound _ _ _ _ _ _ _ := trivial
  owner _ _ _ _ _ _ _ := trivial
  space _ _ _ _ _ _ _ := trivial
  newList _ _ hs _ := ⟨hs, trivial⟩
  newMap _ _ hs _ := ⟨hs, trivial⟩
  newFunction s signature body scope hs _ hcode := by
    obtain ⟨inLoop, inFunction, -, hbody⟩ := hcode
    refine ⟨fun id c found => ?_, trivial⟩
    unfold Store.closure? Store.newFunction at found
    rw [Array.getElem?_push] at found
    split at found
    · cases found
      exact hbody
    · exact hs id c found
  newScope _ _ hs _ := ⟨hs, trivial⟩
  newRoot _ hs := ⟨hs, trivial⟩
  push _ _ _ hs _ _ := hs
  put _ _ _ _ hs _ _ _ := hs
  define _ _ _ _ hs _ _ := hs
  defineSpace _ _ _ _ hs _ _ := hs
  block body := by
    rintro ⟨inLoop, inFunction, h⟩ t ht
    exact ⟨inLoop, inFunction, (Stmt.allPermitted_iff _ _ body).mp h t ht⟩
  branchTrue _ _ _ := fun ⟨inLoop, inFunction, h⟩ => ⟨inLoop, inFunction, h.2.1⟩
  branchFalse _ _ _ := fun ⟨inLoop, inFunction, h⟩ => ⟨inLoop, inFunction, h.2.2⟩
  loop _ _ := fun ⟨_, inFunction, h⟩ => ⟨true, inFunction, h.2⟩
  test _ _ _ := fun ⟨_, _, h⟩ => ⟨false, false, h⟩
  record _ _ _ _ _ _ _ := trivial
  module source _ quiet t ht :=
    ⟨false, false, (Stmt.allPermitted_iff _ _ _).mp (Program.permitted_of_ofSource quiet) t ht⟩
  sameSite _ _ _ _ := trivial
  write _ _ _ _ _ _ _ := trivial

/-- A script that is well formed starts outside of loops and functions. -/
theorem Program.permitted_of_mem {keepTests : Bool} {file : Option String} {source : String}
    (quiet : (Program.ofSource keepTests file source).2 = []) {s : Stmt}
    (hs : s ∈ (Program.ofSource keepTests file source).1) : s.Permitted false false :=
  (Stmt.allPermitted_iff _ _ _).mp (Program.permitted_of_ofSource quiet) s hs

theorem Discipline.permitted_governs (setup : Setup) (host : Host) :
    (Discipline.permitted setup).Governs host where
  start := by
    refine ⟨fun id c found => ?_, trivial, trivial, trivial⟩
    cases found
  reported := trivial
  script _ _ quiet _ ht := ⟨false, false, Program.permitted_of_mem quiet ht⟩

/-- What drops signals, or takes only values, asks for statements that were read outside of loops
(and, but for a call, outside of functions). -/
theorem Asks.permitted {setup : Setup} {c c' : Config} {link : Link} {s : Stmt}
    (admitted : (Discipline.permitted setup).Admits c) (asks : Asks setup c link c')
    (task : c'.task = .execute s) :
    ((link = .test ∨ ∃ i, link = .load i) → s.Permitted false false) ∧
      (link = .body → s.Permitted false true) := by
  cases asks with
  | body found made bound opened reached =>
    cases task
    have member := reached.mem
    have body := admitted.1.1 _ _ found
    exact ⟨by simp, fun _ => (Stmt.allPermitted_iff _ _ _).mp body _ member⟩
  | test traced made =>
    cases task
    -- the body of a test is parsed outside of loops and functions, wherever the test stands
    obtain ⟨inLoop, inFunction, h⟩ := admitted.2
    exact ⟨fun _ => h, by simp⟩
  | @declaration depth path place space source program target s m m₁ m₂ m₃ m₄ m₅ m' found traced read
      made entered reached =>
    cases task
    have member := reached.mem
    unfold moduleDeclarations at read
    dsimp only at read
    split at read
    · rename_i quiet
      cases read
      have quiet := List.isEmpty_iff.mp quiet
      exact ⟨fun _ => Program.permitted_of_mem quiet (List.mem_filter.mp member).1, by simp⟩
    · cases read
  | _ => simp

/-! ## A value on its way out of a call -/

/-- A statement is another one or stands inside it, with no function and no test between the
two. -/
inductive Stmt.Inside (t : Stmt) : Stmt → Prop
  | here : Stmt.Inside t t
  | block {s : Stmt} {body : List Stmt} (member : s ∈ body) (inside : Stmt.Inside t s) :
      Stmt.Inside t (.block body)
  | whenTrue {condition : Expr} {s : Stmt} {other : Option Stmt} (inside : Stmt.Inside t s) :
      Stmt.Inside t (.branch condition s other)
  | whenFalse {condition : Expr} {s other : Stmt} (inside : Stmt.Inside t s) :
      Stmt.Inside t (.branch condition other (some s))
  | loop {condition : Expr} {s : Stmt} (inside : Stmt.Inside t s) :
      Stmt.Inside t (.loop condition s)

theorem Stmt.Inside.trans {t s r : Stmt} (inner : t.Inside s) (outer : s.Inside r) : t.Inside r := by
  induction outer with
  | here => exact inner
  | block member _ ih => exact .block member ih
  | whenTrue _ ih => exact .whenTrue ih
  | whenFalse _ ih => exact .whenFalse ih
  | loop _ ih => exact .loop ih

/-- A configuration is about a statement, which ends with a signal in some state. -/
def Config.EndsWith (setup : Setup) (c : Config) (signal : Signal) (m' : Machine) : Prop :=
  ∃ s, c.task = .execute s ∧ execute setup c.depth s c.machine = .ok signal m'

theorem sequence_stops {run : Stmt → EvalM Signal} {body : List Stmt} {s : Stmt} {signal : Signal}
    {m m₁ m' : Machine} (reached : InTurn run (fun signal => signal = .next) body m s m₁)
    (ran : run s m₁ = .ok signal m') (stops : signal ≠ .next) :
    sequence run body m = .ok signal m' := by
  induction reached with
  | first =>
    rw [EvalM.sequence, bind_ok ran]
    cases signal with
    | next => exact absurd rfl stops
    | leave => rfl
    | yield v => rfl
  | later before goes _ ih =>
    subst goes
    rw [EvalM.sequence, bind_ok before]
    exact ih ran

theorem iterate_yields {condition : EvalM Bool} {body : EvalM Signal} {rounds left : Nat} {v : Value}
    {m m₁ m₂ m' : Machine} (reached : Rounds condition body rounds m left m₁) (more : left ≠ 0)
    (holds : condition m₁ = .ok true m₂) (ran : body m₂ = .ok (.yield v) m') :
    iterate condition body rounds m = .ok (.yield v) m' := by
  induction reached with
  | @here rounds m =>
    obtain ⟨left, rfl⟩ := Nat.exists_eq_succ_of_ne_zero more
    rw [iterate, bind_ok holds, if_pos rfl, bind_ok ran]
    rfl
  | again held before _ ih =>
    rw [iterate, bind_ok held, if_pos rfl, bind_ok before]
    exact ih more holds

theorem Machine.withScope_self {m : Machine} {scope : ScopeId} (h : m.scope = scope) :
    { m with scope := scope } = m := by
  subst h
  rfl

theorem scope_of_surroundings {m m' : Machine} (h : m'.surroundings = m.surroundings) :
    m'.scope = m.scope :=
  congrArg Surroundings.scope h

/-- A statement inside another one stands inside it in the text, and outside of functions if the
other one does. -/
theorem Asks.inner_inside {setup : Setup} {c c' : Config} {t : Stmt} (asks : Asks setup c .inner c')
    (task : c'.task = .execute t) : ∃ s, c.task = .execute s ∧ t.Inside s ∧
      ∀ inLoop, s.Permitted inLoop false → ∃ inLoop', t.Permitted inLoop' false := by
  cases asks with
  | @block depth body t' scope m m₁ m' made reached =>
    cases task
    have member := reached.mem
    refine ⟨.block body, rfl, .block member .here, fun inLoop h => ⟨inLoop, ?_⟩⟩
    exact (Stmt.allPermitted_iff _ _ body).mp h t member
  | @branch depth condition whenTrue t' whenFalse a m m' ran chosen =>
    cases task
    refine ⟨.branch condition whenTrue whenFalse, rfl, ?_⟩
    split at chosen
    · cases chosen
      exact ⟨.whenTrue .here, fun inLoop h => ⟨inLoop, h.2.1⟩⟩
    · subst chosen
      exact ⟨.whenFalse .here, fun inLoop h => ⟨inLoop, h.2.2⟩⟩
  | @round depth left condition body m m₁ m' rounds holds =>
    cases task
    exact ⟨.loop condition t, rfl, .loop .here, fun _ h => ⟨true, h.2⟩⟩

/-- A value passes through the statements around it, and nothing else is executed on its way. -/
theorem Asks.inner_yields {setup : Setup} {c c' : Config} {v : Value} {m' : Machine}
    (asks : Asks setup c .inner c') (ends : c'.EndsWith setup (.yield v) m') :
    c.EndsWith setup (.yield v) { m' with scope := c.machine.scope } := by
  obtain ⟨t, task, ran⟩ := ends
  cases asks with
  | @block depth body t' scope m m₁ m₂ made reached =>
    cases task
    have stopped := sequence_stops reached ran Signal.noConfusion
    have home : m₁.scope = m.scope :=
      scope_of_surroundings ((Keeps.onStore fun s => s.newScope (some m.scope)).of_ok made)
    refine ⟨.block body, rfl, ?_⟩
    -- the block puts back the scope that it found
    have ended := inScope_ok stopped
    rw [home] at ended
    rw [execute, get_bind, bind_ok made]
    exact ended
  | @branch depth condition whenTrue t' whenFalse a m m₂ before chosen =>
    cases task
    have home : m'.scope = m.scope :=
      (scope_of_surroundings (((evaluationKeeps setup depth).execute t).of_ok ran)).trans
        (scope_of_surroundings (((evaluationKeeps setup depth).evaluate condition).of_ok before))
    refine ⟨.branch condition whenTrue whenFalse, rfl, ?_⟩
    show execute setup (depth + 1) _ m = .ok _ { m' with scope := m.scope }
    rw [Machine.withScope_self home]
    refine (bind_ok before).trans ?_
    split at chosen
    · rename_i truthy
      cases chosen
      rw [if_pos truthy]
      exact ran
    · rename_i falsy
      subst chosen
      rw [if_neg falsy]
      exact ran
  | @round depth left condition body m m₁ m₂ rounds holds =>
    cases task
    have evaluated := ((evaluationKeeps setup depth).evaluate condition).truthOf
    have executed := (evaluationKeeps setup depth).execute t
    have home : m'.scope = m.scope :=
      (scope_of_surroundings (executed.of_ok ran)).trans ((scope_of_surroundings
        (evaluated.of_ok holds)).trans (scope_of_surroundings (rounds.keeps evaluated executed)))
    refine ⟨.loop condition t, rfl, ?_⟩
    show execute setup (depth + 1) _ m = .ok _ { m' with scope := m.scope }
    rw [Machine.withScope_self home, execute]
    exact iterate_yields rounds (Nat.succ_ne_zero left) holds ran

theorem Trail.inner_yields {setup : Setup} {c c' : Config} {links : List Link} {v : Value}
    {m' : Machine} (trail : Trail setup c links c') (inner : ∀ link ∈ links, link = .inner)
    (ends : c'.EndsWith setup (.yield v) m') :
    c.EndsWith setup (.yield v) { m' with scope := c.machine.scope } := by
  induction trail with
  | @here c =>
    obtain ⟨s, task, ran⟩ := ends
    have home := scope_of_surroundings (((evaluationKeeps setup c.depth).execute s).of_ok ran)
    rw [Machine.withScope_self home]
    exact ⟨s, task, ran⟩
  | step asks _ ih =>
    rw [List.forall_mem_cons] at inner
    obtain ⟨rfl, inner⟩ := inner
    have passed := asks.inner_yields (ih inner ends)
    exact passed

/-! ## Where a value comes from -/

theorem sequence_yielded {run : Stmt → EvalM Signal} {body : List Stmt} {v : Value} :
    ∀ {m m' : Machine}, sequence run body m = .ok (.yield v) m' →
      ∃ s m₁, InTurn run (fun signal => signal = .next) body m s m₁ ∧
        run s m₁ = .ok (.yield v) m' := by
  induction body with
  | nil =>
    intro m m' h
    cases h
  | cons s rest ih =>
    intro m m' h
    rw [EvalM.sequence] at h
    obtain ⟨signal, m₁, ran, next⟩ := bind_eq_ok h
    cases signal with
    | next =>
      obtain ⟨t, m₂, reached, yields⟩ := ih next
      exact ⟨t, m₂, .later ran rfl reached, yields⟩
    | leave => cases next
    | yield w =>
      cases next
      exact ⟨s, m, .first, ran⟩

theorem iterate_yielded {condition : EvalM Bool} {body : EvalM Signal} {rounds : Nat} {v : Value} :
    ∀ {m m' : Machine}, iterate condition body rounds m = .ok (.yield v) m' →
      ∃ left m₁ m₂, Rounds condition body rounds m (left + 1) m₁ ∧ condition m₁ = .ok true m₂ ∧
        body m₂ = .ok (.yield v) m' := by
  induction rounds with
  | zero =>
    intro m m' h
    cases h
  | succ rounds ih =>
    intro m m' h
    rw [iterate] at h
    obtain ⟨holds, m₁, held, next⟩ := bind_eq_ok h
    cases holds with
    | false => cases next
    | true =>
      rw [if_pos rfl] at next
      obtain ⟨signal, m₂, ran, next⟩ := bind_eq_ok next
      cases signal with
      | next =>
        obtain ⟨left, m₃, m₄, reached, last, yields⟩ := ih next
        exact ⟨left, m₃, m₄, .again held ran reached, last, yields⟩
      | leave => cases next
      | yield w =>
        cases next
        exact ⟨rounds, m, m₁, .here, held, ran⟩

theorem inScope_eq_ok {α : Type} {step : EvalM α} {scope : ScopeId} {a : α} {m m' : Machine}
    (h : inScope scope step m = .ok a m') : ∃ m₁, step { m with scope := scope } = .ok a m₁ := by
  unfold inScope restoring at h
  dsimp only at h
  cases run : step { m with scope := scope } with
  | ok b m₁ =>
    rw [run] at h
    cases h
    exact ⟨m₁, rfl⟩
  | error e m₁ =>
    rw [run] at h
    cases h

/-- A statement that ends with a value is a `return`, or a statement inside it ends with that
value. -/
theorem source_of_yield {setup : Setup} {depth : Nat} {s : Stmt} {v : Value} {m m' : Machine}
    (ran : execute setup (depth + 1) s m = .ok (.yield v) m') :
    (∃ place value, s = .yield place value) ∨
      ∃ t m₁ m₂, Asks setup ⟨depth + 1, .execute s, m⟩ .inner ⟨depth, .execute t, m₁⟩ ∧
        execute setup depth t m₁ = .ok (.yield v) m₂ := by
  cases s with
  | yield place value => exact .inl ⟨place, value, rfl⟩
  | block body =>
    rw [execute] at ran
    obtain ⟨_, _, got, ran⟩ := bind_eq_ok ran
    cases got
    obtain ⟨scope, m₁, made, ran⟩ := bind_eq_ok ran
    obtain ⟨m₂, ran⟩ := inScope_eq_ok ran
    obtain ⟨t, m₃, reached, yields⟩ := sequence_yielded ran
    exact .inr ⟨t, m₃, m₂, .block made reached, yields⟩
  | branch condition whenTrue whenFalse =>
    obtain ⟨a, m₁, before, next⟩ := bind_eq_ok ran
    by_cases truthy : a.isTruthy = true
    · rw [if_pos truthy] at next
      exact .inr ⟨whenTrue, m₁, m', .branch before (if_pos truthy), next⟩
    · rw [if_neg truthy] at next
      cases whenFalse with
      | none => cases next
      | some other => exact .inr ⟨other, m₁, m', .branch before (if_neg truthy), next⟩
  | loop condition body =>
    obtain ⟨left, m₁, m₂, reached, held, yields⟩ := iterate_yielded ran
    exact .inr ⟨body, m₂, m', .round reached held, yields⟩
  -- none of the others ends with a value
  | leave place => cases ran
  | expression value =>
    obtain ⟨_, _, _, next⟩ := bind_eq_ok ran
    cases next
  | print value =>
    obtain ⟨_, _, _, next⟩ := bind_eq_ok ran
    obtain ⟨_, _, _, next⟩ := bind_eq_ok next
    obtain ⟨_, _, _, next⟩ := bind_eq_ok next
    cases next
  | var name value =>
    cases value <;>
    · obtain ⟨_, _, _, next⟩ := bind_eq_ok ran
      obtain ⟨_, _, _, next⟩ := bind_eq_ok next
      cases next
  | function signature body =>
    obtain ⟨_, _, _, next⟩ := bind_eq_ok ran
    obtain ⟨_, _, _, next⟩ := bind_eq_ok next
    obtain ⟨_, _, _, next⟩ := bind_eq_ok next
    cases next
  | contract kind place clauses =>
    obtain ⟨holds, _, _, next⟩ := bind_eq_ok ran
    split at next
    · cases next
    · cases kind with
      | assertion => cases next
      | check =>
        obtain ⟨_, _, _, next⟩ := bind_eq_ok next
        cases next
  | load path place space =>
    obtain ⟨_, _, _, next⟩ := bind_eq_ok ran
    cases next
  | test name place body =>
    obtain ⟨_, _, _, next⟩ := bind_eq_ok ran
    obtain ⟨_, _, _, next⟩ := bind_eq_ok next
    obtain ⟨_, _, _, next⟩ := bind_eq_ok next
    obtain ⟨_, _, _, next⟩ := bind_eq_ok next
    cases next

/-- The value with which a statement ends is that of a `return` inside it. -/
theorem exists_return {setup : Setup} {v : Value} {depth : Nat} : ∀ {s : Stmt} {m m' : Machine},
    execute setup depth s m = .ok (.yield v) m' → ∃ inners r place value m₁,
      Trail setup ⟨depth, .execute s, m⟩ inners r ∧ (∀ link ∈ inners, link = .inner) ∧
        r.task = .execute (.yield place value) ∧ r.EndsWith setup (.yield v) m₁ := by
  induction depth with
  | zero =>
    intro s m m' ran
    cases ran
  | succ depth ih =>
    intro s m m' ran
    rcases source_of_yield ran with ⟨place, value, rfl⟩ | ⟨t, m₁, m₂, asks, yields⟩
    · exact ⟨[], _, place, value, m', .here, fun _ h => absurd h List.not_mem_nil, rfl, _, rfl, ran⟩
    · obtain ⟨inners, r, place, value, m₃, trail, inner, task, ends⟩ := ih yields
      refine ⟨.inner :: inners, r, place, value, m₃, .step asks trail, ?_, task, ends⟩
      exact List.forall_mem_cons.mpr ⟨rfl, inner⟩

/-! ## Calls that a value ends -/

/-- A call of a function: the function, what it is called with, and the state in which its body is
started on. -/
structure Activation where
  depth : Nat
  id : FunctionId
  arguments : List Value
  closure : Closure
  machine : Machine

/-- The evaluation that a call is. -/
def Activation.config (a : Activation) : Config :=
  ⟨a.depth + 1, .invoke (.function a.id) a.arguments, a.machine⟩

/-- What is left of a call once its body has ended with a value. -/
def Activation.conclude (setup : Setup) (a : Activation) (scope : ScopeId) (result : Value) :
    EvalM Value := do
  define scope "result" result
  let after ← inScope scope (allHold (evaluate setup a.depth) a.closure.signature.after.conditions)
  if !after then failHere (.postcondition a.closure.signature.after.message)
  return result

/-- A statement that is under way at the end of a trail belongs to a call: the call is in progress,
it is of the function that the statement stands in, and between the two there are only the
statements around it. -/
structure Activation.Surrounds (setup : Setup) (a : Activation) (start : Config) (links : List Link)
    (c : Config) (s : Stmt) : Prop where
  found : a.machine.store.closure? a.id = some a.closure
  lexical : ∃ t ∈ a.closure.body, s.Inside t
  trail : ∃ before inners first, links = before ++ .body :: inners ∧
    (∀ link ∈ inners, link = .inner) ∧ Trail setup start before a.config ∧
    Asks setup a.config .body first ∧ Trail setup first inners c

/-- A statement that is asked for from the body of a function starts an occurrence. -/
theorem Activation.surrounds_body {setup : Setup} {start c c' : Config} {links : List Link} {s : Stmt}
    (trail : Trail setup start links c) (asks : Asks setup c .body c') (task : c'.task = .execute s) :
    ∃ a : Activation, a.Surrounds setup start (links ++ [.body]) c' s := by
  have asked := asks
  cases asks with
  | @body depth id arguments closure t scope m m₁ m₂ m₃ m' found made bound admitted reached =>
    cases task
    have member := reached.mem
    refine ⟨⟨depth, id, arguments, closure, m⟩, found, ⟨s, member, .here⟩, ?_⟩
    exact ⟨links, [], _, rfl, fun _ h => absurd h List.not_mem_nil, trail, asked, .here⟩

theorem Activation.Surrounds.inner {setup : Setup} {a : Activation} {start c c' : Config}
    {links : List Link} {s t : Stmt} (h : a.Surrounds setup start links c s)
    (asks : Asks setup c .inner c') (inside : t.Inside s) :
    a.Surrounds setup start (links ++ [.inner]) c' t := by
  obtain ⟨found, ⟨r, member, lexical⟩, before, inners, first, rfl, inner, trail, asked, through⟩ := h
  refine ⟨found, ⟨r, member, inside.trans lexical⟩, before, inners ++ [.inner], first, ?_, ?_, trail,
    asked, through.snoc asks⟩
  · rw [List.append_assoc, List.cons_append]
  · intro link hlink
    rcases List.mem_append.mp hlink with hlink | hlink
    · exact inner link hlink
    · exact List.mem_singleton.mp hlink

/-- When a statement of a call ends with a value, what the call does next is to conclude with it. -/
theorem Activation.Surrounds.concludes {setup : Setup} {a : Activation} {start c : Config}
    {links : List Link} {s : Stmt} {v : Value} {m' : Machine}
    (h : a.Surrounds setup start links c s) (ends : c.EndsWith setup (.yield v) m') :
    ∃ scope, invoke setup a.config.depth (.function a.id) a.arguments a.machine
      = a.conclude setup scope v { m' with scope := a.machine.scope } := by
  obtain ⟨found, -, before, inners, first, -, inner, -, asked, through⟩ := h
  obtain ⟨t, task, ran⟩ := through.inner_yields inner ends
  obtain ⟨depth, id, arguments, closure, m⟩ := a
  cases asked with
  | @body _ _ _ closure' t' scope _ m₁ m₂ m₃ m₄ found' made bound admitted reached =>
    cases task
    cases found.symm.trans found'
    have stopped := sequence_stops reached ran Signal.noConfusion
    -- everything in front of the body has put the scope back
    have home : m₃.scope = m.scope :=
      (scope_of_surroundings ((Keeps.inScope (.allHold (evaluationKeeps setup depth).evaluate
        _)).of_ok admitted)).trans ((scope_of_surroundings ((Keeps.bindArguments _ _ _).of_ok
        bound)).trans (scope_of_surroundings ((Keeps.onStore fun s => s.newScope _).of_ok made)))
    refine ⟨scope, ?_⟩
    show invoke setup (depth + 1) _ _ _ = _
    rw [invoke, get_bind]
    dsimp only
    rw [found]
    refine (bind_ok made).trans ((bind_ok bound).trans ((bind_ok admitted).trans ?_))
    rw [if_neg (by decide)]
    have ended := inScope_ok stopped
    rw [home] at ended
    exact bind_ok ended

/-- Everything that is executed from the top level on was read outside of functions, or belongs to
a call in progress. -/
theorem Trail.free_or_called {setup : Setup} {start c : Config} {links : List Link}
    (admitted : (Discipline.permitted setup).Admits start)
    (free : ∀ s, start.task = .execute s → s.Permitted false false)
    (trail : Trail setup start links c) : ∀ s, c.task = .execute s →
      (∃ inLoop, s.Permitted inLoop false) ∨
        ∃ a : Activation, a.Surrounds setup start links c s := by
  refine trail.along (P := fun links c => ∀ s, c.task = .execute s →
    (∃ inLoop, s.Permitted inLoop false) ∨ ∃ a : Activation, a.Surrounds setup start links c s)
    (fun s task => .inl ⟨false, free s task⟩) ?_
  intro links c link c' reached ih asks t task
  have hc := admitted.trail reached
  cases link with
  | inner =>
    obtain ⟨s, outer, inside, keeps⟩ := asks.inner_inside task
    rcases ih s outer with ⟨inLoop, permitted⟩ | ⟨a, surrounds⟩
    · exact .inl (keeps inLoop permitted)
    · exact .inr ⟨a, surrounds.inner asks inside⟩
  | body => exact .inr (Activation.surrounds_body reached asks task)
  | test => exact .inl ⟨false, (asks.permitted hc task).1 (.inl rfl)⟩
  | load i => exact .inl ⟨false, (asks.permitted hc task).1 (.inr ⟨i, rfl⟩)⟩
  | part => cases asks <;> cases task
  | call frame =>
    cases asks
    cases task

theorem Session.Begins.permitted {session : Session} {source : String} {name : Option String} {s : Stmt}
    {m : Machine} (begins : session.Begins source name s m) : s.Permitted false false := by
  obtain ⟨program, read, reached⟩ := begins
  have member := reached.mem
  have quiet := congrArg Prod.snd read
  have listed := congrArg Prod.fst read
  dsimp only at listed
  rw [← listed] at member
  exact Program.permitted_of_mem quiet member

/-- In a session that runs a script without diagnostics, no signal is lost. A statement of the
script ends with `next` whenever it ends with a signal, and so do the bodies of tests and the
declarations of modules wherever they are reached; the statements of a function body never leave a
loop. A statement that ends with a value has it from a `return` inside it. It belongs to a call in
progress, of the very function it stands in, and the call then has nothing left to do but to
conclude with that value. -/
theorem Session.signals_never_lost (setup : Setup) (host : Host)
    (scripts : List (String × Option String)) (source : String) (name : Option String) (s₀ : Stmt)
    (m₀ : Machine) (begins : ((Session.new setup host).after scripts).Begins source name s₀ m₀) :
    (∀ depth m signal m', execute setup depth s₀ m = .ok signal m' → signal = .next) ∧
    ∀ links c, Trail setup (.top setup s₀ m₀) links c →
      (∀ link c' signal m', Asks setup c link c' → c'.EndsWith setup signal m' →
        ((link = .test ∨ ∃ i, link = .load i) → signal = .next) ∧
          (link = .body → signal ≠ .leave)) ∧
      ∀ s v m', c.task = .execute s → execute setup c.depth s c.machine = .ok (.yield v) m' →
        (∃ inners r place value m₁, Trail setup c inners r ∧ (∀ link ∈ inners, link = .inner) ∧
          r.task = .execute (.yield place value) ∧ r.EndsWith setup (.yield v) m₁) ∧
        ∃ a : Activation, a.Surrounds setup (.top setup s₀ m₀) links c s ∧
          ∃ scope, invoke setup a.config.depth (.function a.id) a.arguments a.machine
            = a.conclude setup scope v { m' with scope := a.machine.scope } := by
  have permitted := begins.permitted
  obtain ⟨-, -, admitted⟩ := (Discipline.permitted_governs setup host).begins begins
  -- a statement of the script was parsed outside of loops and functions
  have free : ∀ s, (Config.top setup s₀ m₀).task = .execute s → s.Permitted false false := by
    intro s task
    cases s₀ <;> cases task <;> exact permitted
  refine ⟨fun depth m signal m' ran => ?_, fun links c trail => ⟨?_, ?_⟩⟩
  · exact ((execute_fits setup depth permitted).of_ok trivial ran).2.eq_next
  · rintro link c' signal m' asks ⟨s, task, ran⟩
    obtain ⟨outside, body⟩ := asks.permitted (admitted.trail trail) task
    refine ⟨fun hlink => ?_, fun hlink => ?_⟩
    · exact ((execute_fits setup _ (outside hlink)).of_ok trivial ran).2.eq_next
    · exact ((execute_fits setup _ (body hlink)).of_ok trivial ran).2.ne_leave
  · intro s v m' task ran
    refine ⟨?_, ?_⟩
    · have returned := exists_return ran
      rw [← task] at returned
      exact returned
    -- a value sent outside of all calls would not be permitted, so there is a call around
    rcases trail.free_or_called admitted free s task with ⟨inLoop, outside⟩ | ⟨a, surrounds⟩
    · have fits := ((execute_fits setup _ outside).of_ok trivial ran).2
      exact absurd fits Bool.false_ne_true
    · exact ⟨a, surrounds, surrounds.concludes ⟨s, task, ran⟩⟩

/-- A function that returns from inside a loop, and a call of it. -/
def returningScript : String :=
  "fun f() \x7b while (true) \x7b return nil; \x7d \x7d f();"

/-- In a new session the call in the script is reached, and no signal is lost in it. -/
theorem Session.signals_never_lost_returning :
    ∃ e m, (Session.new (Session.standard {}) Host.bare).Begins returningScript none (.expression e) m ∧
      ∀ links c, Trail (Session.standard {}) (.top (Session.standard {}) (.expression e) m) links c →
        ∀ s v m', c.task = .execute s →
          execute (Session.standard {}) c.depth s c.machine = .ok (.yield v) m' →
          ∃ a : Activation,
            a.Surrounds (Session.standard {}) (.top (Session.standard {}) (.expression e) m) links c s := by
  have read : Program.ofSource false none returningScript
      = ([.function ⟨⟨"f", ⟨none, 1⟩⟩, [], .none, .none⟩ [.loop (.literal (.bool true))
            (.block [.yield ⟨none, 1⟩ (some (.literal .nil))])],
          .expression (.call (.variable ⟨"f", ⟨none, 1⟩⟩) ⟨none, 1⟩ [])], []) := by
    cbv
  have begins : (Session.new (Session.standard {}) Host.bare).Begins returningScript none
      (.expression (.call (.variable ⟨"f", ⟨none, 1⟩⟩) ⟨none, 1⟩ [])) _ :=
    ⟨_, read, .later rfl trivial .first⟩
  refine ⟨_, _, begins, fun links c trail s v m' task ran => ?_⟩
  have lost := signals_never_lost (Session.standard {}) Host.bare [] returningScript none _ _ begins
  obtain ⟨-, a, surrounds, -⟩ := (lost.2 links c trail).2 s v m' task ran
  exact ⟨a, surrounds⟩

end ContractScript
