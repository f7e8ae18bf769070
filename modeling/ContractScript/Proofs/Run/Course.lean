/-
The course of a run: what each evaluation asks for, in order.

`Asks` says that one evaluation asks for another, but not what comes first. Here the
questions of an evaluation are a list, in the order in which they are put. From it the
chronicle of an evaluation is made: all evaluations of the run in the order in which
they end, an evaluation right after everything it asked for. The two pictures of a run
agree. The questions are exactly those of `Asks`, so the chronicle has exactly the
evaluations that trails lead to.

A trail says where a run is, but not what is behind it. `Past` is a trail that also
carries the evaluations that have ended by then.
-/
import ContractScript.Proofs.Run.Trail

set_option autoImplicit false

namespace ContractScript

open EvalM

/-! ## Courses -/

/-- A question that an evaluation puts: what for, what is asked, and in which state. -/
structure Question where
  link : Link
  task : Task
  machine : Machine

/-- The questions of a step in order, from the state it starts in. -/
abbrev Course := Machine → List Question

namespace Course

variable {ι α : Type}

/-- No questions. -/
def silent : Course := fun _ => []

/-- One question, in the state there is. -/
def ask (link : Link) (task : Task) : Course := fun m => [⟨link, task, m⟩]

/-- The questions that follow a step, if it ends well. -/
def after (step : EvalM α) (next : α → Course) : Course := fun m =>
  match step m with
  | .ok a m' => next a m'
  | .error _ _ => []

/-- The questions of a step, and those that follow it. -/
def followed (first : Course) (step : EvalM α) (next : α → Course) : Course := fun m =>
  first m ++ after step next m

/-- The questions of a step in another scope. -/
def inScope (scope : ScopeId) (course : Course) : Course := fun m =>
  course { m with scope := scope }

/-- The questions of items that are run in turn, as long as it goes on. -/
def inTurn (course : ι → Course) (run : ι → EvalM α) (goOn : α → Bool) : List ι → Course
  | [] => silent
  | i :: rest => (course i).followed (run i) fun a =>
    match goOn a with
    | true => inTurn course run goOn rest
    | false => silent

/-- The questions of a loop. -/
def rounds (asksCondition asksBody : Course) (condition : EvalM Bool) (body : EvalM Signal) :
    Nat → Course
  | 0 => silent
  | left + 1 => asksCondition.followed condition fun holds =>
    match holds with
    | true => asksBody.followed body fun signal =>
      match signal with
      | .next => rounds asksCondition asksBody condition body left
      | _ => silent
    | false => silent

theorem mem_after {step : EvalM α} {next : α → Course} {m : Machine} {q : Question} :
    q ∈ after step next m ↔ ∃ a m', step m = .ok a m' ∧ q ∈ next a m' := by
  unfold after
  cases step m with
  | ok a m' =>
    constructor
    · exact fun member => ⟨a, m', rfl, member⟩
    · rintro ⟨b, m₁, ⟨⟩, member⟩
      exact member
  | error e m' =>
    constructor
    · exact fun member => absurd member List.not_mem_nil
    · rintro ⟨b, m₁, ⟨⟩, -⟩

theorem mem_followed {first : Course} {step : EvalM α} {next : α → Course} {m : Machine}
    {q : Question} :
    q ∈ first.followed step next m ↔
      q ∈ first m ∨ ∃ a m', step m = .ok a m' ∧ q ∈ next a m' := by
  unfold followed
  rw [List.mem_append, mem_after]

theorem mem_ask {link : Link} {task : Task} {m : Machine} {q : Question} :
    q ∈ ask link task m ↔ q = ⟨link, task, m⟩ :=
  List.mem_singleton

theorem followed_silent (first : Course) (step : EvalM α) :
    (first.followed step fun _ => silent) = first := by
  funext m
  unfold followed after silent
  cases step m <;> exact List.append_nil _

/-- A question is put in turn when the item that puts it is reached. -/
theorem mem_inTurn {course : ι → Course} {run : ι → EvalM α} {goOn : α → Bool} {P : α → Prop}
    (same : ∀ a, goOn a = true ↔ P a) {items : List ι} {m : Machine} {q : Question} :
    q ∈ inTurn course run goOn items m ↔
      ∃ i m', InTurn run P items m i m' ∧ q ∈ course i m' := by
  constructor
  · intro member
    -- the question is put by the first item, or by one behind it once that has gone well
    induction items generalizing m with
    | nil => exact absurd member List.not_mem_nil
    | cons i rest ih =>
      rcases mem_followed.mp member with here | ⟨a, m₁, ran, further⟩
      · exact ⟨i, m, .first, here⟩
      · cases goes : goOn a with
        | false =>
          rw [goes] at further
          exact absurd further List.not_mem_nil
        | true =>
          rw [goes] at further
          obtain ⟨j, m', reached, asked⟩ := ih further
          exact ⟨j, m', .later ran ((same a).mp goes) reached, asked⟩
  · rintro ⟨i, m', reached, asked⟩
    induction reached with
    | first => exact mem_followed.mpr (.inl asked)
    | @later i j rest a m m₁ m' ran goes _ ih =>
      refine mem_followed.mpr (.inr ⟨a, m₁, ran, ?_⟩)
      rw [(same a).mpr goes]
      exact ih asked

/-- A question of a loop is put after some full rounds: by the condition, or by the body once the
condition holds. -/
theorem mem_rounds {asksCondition asksBody : Course} {condition : EvalM Bool} {body : EvalM Signal}
    {number : Nat} {m : Machine} {q : Question} :
    q ∈ rounds asksCondition asksBody condition body number m ↔
      ∃ left m₁, Rounds condition body number m (left + 1) m₁ ∧
        (q ∈ asksCondition m₁ ∨ ∃ m', condition m₁ = .ok true m' ∧ q ∈ asksBody m') := by
  constructor
  · intro member
    -- in a round the condition asks first, and the body only where the condition holds
    induction number generalizing m with
    | zero => exact absurd member List.not_mem_nil
    | succ number ih =>
      rcases mem_followed.mp member with here | ⟨holds, m₁, held, further⟩
      · exact ⟨number, m, .here, .inl here⟩
      cases holds with
      | false => exact absurd further List.not_mem_nil
      | true =>
        rcases mem_followed.mp further with here | ⟨signal, m₂, ran, again⟩
        · exact ⟨number, m, .here, .inr ⟨m₁, held, here⟩⟩
        cases signal with
        | next =>
          obtain ⟨left, m', reached, asked⟩ := ih again
          exact ⟨left, m', .again held ran reached, asked⟩
        | leave => exact absurd again List.not_mem_nil
        | yield v => exact absurd again List.not_mem_nil
  · rintro ⟨left, m₁, reached, asked⟩
    -- a question is put only while a round is left, so the number at the end is not zero
    generalize ending : left + 1 = final at reached
    induction reached with
    | here =>
      subst ending
      refine mem_followed.mpr ?_
      rcases asked with here | ⟨m', held, here⟩
      · exact .inl here
      · exact .inr ⟨true, m', held, mem_followed.mpr (.inl here)⟩
    | again held ran _ ih =>
      have further := ih asked ending
      exact mem_followed.mpr (.inr ⟨true, _, held, mem_followed.mpr (.inr ⟨.next, _, ran, further⟩)⟩)

/-! ## What each evaluation asks for -/

/-- The value of an expression. -/
def part (e : Expr) : Course := ask .part (.evaluate e)

/-- The values of expressions. -/
def parts (setup : Setup) (depth : Nat) (es : List Expr) : Course :=
  inTurn part (evaluate setup depth) (fun _ => true) es

/-- The values of conditions, up to the first that does not hold. -/
def conditions (setup : Setup) (depth : Nat) (es : List Expr) : Course :=
  inTurn part (evaluate setup depth) Value.isTruthy es

/-- Whether the next statement follows. -/
def goesOn : Signal → Bool
  | .next => true
  | _ => false

/-- Statements, up to the first that does not just end. -/
def statements (setup : Setup) (depth : Nat) (link : Link) (body : List Stmt) : Course :=
  inTurn (fun s => ask link (.execute s)) (execute setup depth) goesOn body

theorem goesOn_iff (signal : Signal) : goesOn signal = true ↔ signal = .next := by
  cases signal <;> simp [goesOn]

theorem mem_parts {setup : Setup} {depth : Nat} {es : List Expr} {m : Machine} {q : Question} :
    q ∈ parts setup depth es m ↔
      ∃ e m', InTurn (evaluate setup depth) (fun _ => True) es m e m' ∧
        q = ⟨.part, .evaluate e, m'⟩ := by
  unfold parts
  rw [mem_inTurn (P := fun _ => True) fun _ => iff_of_true rfl trivial]
  simp only [part, mem_ask]

theorem mem_conditions {setup : Setup} {depth : Nat} {es : List Expr} {m : Machine} {q : Question} :
    q ∈ conditions setup depth es m ↔
      ∃ e m', InTurn (evaluate setup depth) (fun v => v.isTruthy = true) es m e m' ∧
        q = ⟨.part, .evaluate e, m'⟩ := by
  unfold conditions
  rw [mem_inTurn fun _ => Iff.rfl]
  simp only [part, mem_ask]

theorem mem_statements {setup : Setup} {depth : Nat} {link : Link} {body : List Stmt} {m : Machine}
    {q : Question} :
    q ∈ statements setup depth link body m ↔
      ∃ s m', InTurn (execute setup depth) (fun signal => signal = .next) body m s m' ∧
        q = ⟨link, .execute s, m'⟩ := by
  unfold statements
  rw [mem_inTurn goesOn_iff]
  simp only [mem_ask]

/-! ## What goes along with courses -/

/-- A relation between steps and courses is compositional if it holds of a sequence, with the course
of its parts, whenever it holds of these; and of the steps between questions that ask for nothing
themselves. -/
structure Compositional (P : (α : Type) → EvalM α → Course → Prop) : Prop where
  pure {α : Type} (a : α) : P α (Pure.pure a) silent
  key (depth : Nat) (v : Value) : P Key (keyOf depth v) silent
  bind {α β : Type} {step : EvalM α} {f : α → EvalM β} {course : Course} {next : α → Course}
    (first : P α step course) (then_ : ∀ a, P β (f a) (next a)) :
    P β (step >>= f) (course.followed step next)

namespace Compositional

variable {P : (α : Type) → EvalM α → Course → Prop} (h : Compositional P)
include h

/-- What asks for nothing adds nothing to the course of what came first. -/
theorem before {α β : Type} {step : EvalM α} {f : α → EvalM β} {course : Course}
    (first : P α step course) (then_ : ∀ a, P β (f a) silent) : P β (step >>= f) course := by
  have whole := h.bind first then_
  rw [followed_silent] at whole
  exact whole

/-- Statements in turn, each of which need only be considered if it is one of them. -/
theorem sequence_of_mem {run : Stmt → EvalM Signal} {asks : Stmt → Course} {body : List Stmt}
    (each : ∀ s ∈ body, P Signal (run s) (asks s)) :
    P Signal (EvalM.sequence run body) (inTurn asks run goesOn body) := by
  induction body with
  | nil => exact h.pure _
  | cons s rest ih =>
    rw [List.forall_mem_cons] at each
    refine h.bind each.1 fun signal => ?_
    cases signal with
    | next => exact ih each.2
    | leave => exact h.pure _
    | yield v => exact h.pure _

theorem sequence {run : Stmt → EvalM Signal} {asks : Stmt → Course}
    (each : ∀ s, P Signal (run s) (asks s)) (body : List Stmt) :
    P Signal (EvalM.sequence run body) (inTurn asks run goesOn body) :=
  h.sequence_of_mem fun s _ => each s

theorem allHold_of_mem {value : Expr → EvalM Value} {asks : Expr → Course} {conditions : List Expr}
    (each : ∀ e ∈ conditions, P Value (value e) (asks e)) :
    P Bool (EvalM.allHold value conditions) (inTurn asks value Value.isTruthy conditions) := by
  induction conditions with
  | nil => exact h.pure _
  | cons e rest ih =>
    rw [List.forall_mem_cons] at each
    refine h.bind each.1 fun v => ?_
    cases v.isTruthy with
    | true => exact ih each.2
    | false => exact h.pure _

theorem allHold {value : Expr → EvalM Value} {asks : Expr → Course}
    (each : ∀ e, P Value (value e) (asks e)) (conditions : List Expr) :
    P Bool (EvalM.allHold value conditions) (inTurn asks value Value.isTruthy conditions) :=
  h.allHold_of_mem fun e _ => each e

theorem values_of_mem {value : Expr → EvalM Value} {asks : Expr → Course} {items : List Expr}
    (each : ∀ e ∈ items, P Value (value e) (asks e)) :
    P (List Value) (EvalM.values value items) (inTurn asks value (fun _ => true) items) := by
  induction items with
  | nil => exact h.pure _
  | cons e rest ih =>
    rw [List.forall_mem_cons] at each
    exact h.bind each.1 fun _ => h.before (ih each.2) fun _ => h.pure _

theorem values {value : Expr → EvalM Value} {asks : Expr → Course}
    (each : ∀ e, P Value (value e) (asks e)) (items : List Expr) :
    P (List Value) (EvalM.values value items) (inTurn asks value (fun _ => true) items) :=
  h.values_of_mem fun e _ => each e

theorem entries_of_mem {value : Expr → EvalM Value} {asks : Expr → Course} (depth : Nat)
    {pairs : List (Expr × Expr)}
    (each : ∀ pair ∈ pairs, P Value (value pair.1) (asks pair.1) ∧ P Value (value pair.2) (asks pair.2)) :
    ∀ content, P _ (EvalM.entries depth value content pairs)
      (inTurn (fun pair => (asks pair.1).followed (value pair.1) fun _ => asks pair.2)
        (entry depth value) (fun _ => true) pairs) := by
  induction pairs with
  | nil => exact fun _ => h.pure _
  | cons pair rest ih =>
    rw [List.forall_mem_cons] at each
    intro content
    -- an entry and its key are one step, and what is written with them asks for nothing
    have whole : EvalM.entries depth value content (pair :: rest)
        = entry depth value pair >>= fun e =>
            EvalM.entries depth value (content.insert e.1 e.2) rest := by
      simp only [EvalM.entries, entry, bind_assoc, pure_bind]
    rw [whole]
    refine h.bind ?_ fun e => ih each.2 _
    exact h.bind each.1.1 fun _ => h.before each.1.2 fun _ => h.before (h.key depth _) fun _ => h.pure _

theorem entries {value : Expr → EvalM Value} {asks : Expr → Course} (depth : Nat)
    (each : ∀ e, P Value (value e) (asks e)) (pairs : List (Expr × Expr)) :
    ∀ content, P _ (EvalM.entries depth value content pairs)
      (inTurn (fun pair => (asks pair.1).followed (value pair.1) fun _ => asks pair.2)
        (entry depth value) (fun _ => true) pairs) :=
  h.entries_of_mem depth fun pair _ => ⟨each pair.1, each pair.2⟩

/-- A loop, if running out of rounds asks for nothing. -/
theorem iterate (spent : P Signal (throw .unfinished) silent) {condition : EvalM Bool}
    {body : EvalM Signal} {asksCondition asksBody : Course}
    (hcondition : P Bool condition asksCondition) (hbody : P Signal body asksBody) (number : Nat) :
    P Signal (EvalM.iterate condition body number)
      (rounds asksCondition asksBody condition body number) := by
  induction number with
  | zero => exact spent
  | succ number ih =>
    refine h.bind hcondition fun holds => ?_
    cases holds with
    | false => exact h.pure _
    | true =>
      refine h.bind hbody fun signal => ?_
      cases signal with
      | next => exact ih
      | leave => exact h.pure _
      | yield v => exact h.pure _

end Compositional

end Course

open Course

/-! ## The courses of evaluations -/

/-- What the evaluation of an expression asks for. -/
def Expr.course (setup : Setup) (depth : Nat) : Expr → Course
  | .logical op _ left right =>
    (part left).followed (evaluate setup depth left) fun a =>
      match op.needsRight a with
      | true => part right
      | false => silent
  | .choice condition whenTrue whenFalse =>
    (part condition).followed (evaluate setup depth condition) fun a =>
      part (if a.isTruthy then whenTrue else whenFalse)
  | .call callee close arguments =>
    (part callee).followed (evaluate setup depth callee) fun f =>
      (parts setup depth arguments).followed (values (evaluate setup depth) arguments) fun vs =>
        ask .part (.call close f vs)
  | .map pairs =>
    inTurn (fun pair => (part pair.1).followed (evaluate setup depth pair.1) fun _ => part pair.2)
      (entry depth (evaluate setup depth)) (fun _ => true) pairs
  | e => parts setup depth e.operands

/-- What a call of a value asks for. -/
def Value.callCourse (place : Place) (f : Value) (arguments : List Value) : Course := fun m =>
  match m.store.callable? f with
  | none => []
  | some (name, arity) =>
    if arguments.length = arity then
      [⟨.call ⟨name, place⟩, .invoke f arguments, { m with frames := ⟨name, place⟩ :: m.frames }⟩]
    else []

/-- What a call of a function asks for once its frame is in place: the conditions before, the body,
and the conditions after. -/
def Closure.course (setup : Setup) (depth : Nat) (c : Closure) (arguments : List Value) : Course :=
  after (newScope (some c.scope)) fun scope =>
    after (bind scope c.signature.parameters arguments) fun _ =>
      (Course.inScope scope (conditions setup depth c.signature.before.conditions)).followed
        (EvalM.inScope scope (allHold (evaluate setup depth) c.signature.before.conditions)) fun holds =>
        match holds with
        | false => silent
        | true =>
          (Course.inScope scope (statements setup depth .body c.body)).followed
            (EvalM.inScope scope (sequence (execute setup depth) c.body)) fun signal =>
            after (define scope "result" signal.result) fun _ =>
              Course.inScope scope (conditions setup depth c.signature.after.conditions)

/-- What a call of a value asks for once its frame is in place. -/
def Value.invokeCourse (setup : Setup) (depth : Nat) (f : Value) (arguments : List Value) : Course :=
  fun m =>
    match f with
    | .function id =>
      match m.store.closure? id with
      | none => []
      | some c => c.course setup depth arguments m
    | _ => []

/-- What a step that makes a scope inside the current one asks for. -/
def Course.inNewScope (course : Course) : Course := fun m =>
  after (newScope (some m.scope)) (fun scope => Course.inScope scope course) m

theorem Course.mem_inNewScope {course : Course} {m : Machine} {q : Question} :
    q ∈ course.inNewScope m ↔
      ∃ scope m₁, newScope (some m.scope) m = .ok scope m₁ ∧ q ∈ course { m₁ with scope := scope } :=
  mem_after

/-- What the execution of a statement asks for. -/
def Stmt.course (setup : Setup) (depth : Nat) : Stmt → Course
  | .block body => Course.inNewScope (statements setup depth .inner body)
  | .branch condition whenTrue whenFalse =>
    (part condition).followed (evaluate setup depth condition) fun a =>
      match (if a.isTruthy then some whenTrue else whenFalse) with
      | some s => ask .inner (.execute s)
      | none => silent
  | .loop condition body =>
    rounds (part condition) (ask .inner (.execute body)) (truthOf (evaluate setup depth condition))
      (execute setup depth body) setup.limits.rounds
  | .contract _ _ clauses => conditions setup depth clauses.conditions
  | .load path place space => ask .part (.load path place space)
  | .test name _ body =>
    after (trace setup ("test: " ++ name)) fun _ => Course.inNewScope (ask .test (.execute body))
  | s =>
    match s.value? with
    | some e => part e
    | none => silent

/-- What an import asks for. -/
def loadCourse (setup : Setup) (depth : Nat) (path : String) (place : Place)
    (space : Option Lexeme) : Course := fun m =>
  after (findModule setup (pathLexeme path place) path) (fun source =>
    after (trace setup ("import: " ++ path ++ " -> " ++ source.name)) fun _ m₂ =>
      after (moduleDeclarations (pathLexeme path place) path source) (fun program =>
        after (importTarget setup space) fun target =>
          after (enterDirectory source.directory) fun _ =>
            Course.inScope target
              (statements setup depth (.load ⟨m.host.site, m.directory, path⟩) program))
        { m₂ with importing := source.name :: m₂.importing }) m

/-- What a task asks for. -/
def Task.course (setup : Setup) (depth : Nat) : Task → Course
  | .evaluate e => e.course setup depth
  | .call place f arguments => f.callCourse place arguments
  | .invoke f arguments => f.invokeCourse setup depth arguments
  | .execute s => s.course setup depth
  | .load path place space => loadCourse setup depth path place space

/-- What an evaluation asks for, in order. -/
def Config.asked (setup : Setup) (c : Config) : List (Link × Config) :=
  match c.depth with
  | 0 => []
  | depth + 1 => (c.task.course setup depth c.machine).map fun q => (q.link, ⟨depth, q.task, q.machine⟩)

/-! ## The questions are those of `Asks` -/

section Questions

variable {setup : Setup} {depth : Nat} {m : Machine} {q : Question}

theorem InTurn.of_single {ι α : Type} {run : ι → EvalM α} {goOn : α → Prop} {i j : ι} {m m' : Machine}
    (reached : InTurn run goOn [i] m j m') : j = i ∧ m' = m := by
  cases reached with
  | first => exact ⟨rfl, rfl⟩
  | later _ _ further => cases further

/-- An evaluation that has only operands to ask for. -/
theorem Expr.asks_of_parts {e : Expr} (member : q ∈ parts setup depth e.operands m) :
    Asks setup ⟨depth + 1, .evaluate e, m⟩ q.link ⟨depth, q.task, q.machine⟩ := by
  obtain ⟨part, m', reached, rfl⟩ := mem_parts.mp member
  exact .operand reached

theorem Expr.asks_of_course {e : Expr} (member : q ∈ e.course setup depth m) :
    Asks setup ⟨depth + 1, .evaluate e, m⟩ q.link ⟨depth, q.task, q.machine⟩ := by
  cases e with
  | logical op place left right =>
    rcases mem_followed.mp member with here | ⟨a, m₁, ran, further⟩
    · cases mem_ask.mp here
      exact .operand .first
    · cases needed : op.needsRight a with
      | false =>
        rw [needed] at further
        exact absurd further List.not_mem_nil
      | true =>
        rw [needed] at further
        cases mem_ask.mp further
        exact .right ran needed
  | choice condition whenTrue whenFalse =>
    rcases mem_followed.mp member with here | ⟨a, m₁, ran, further⟩
    · cases mem_ask.mp here
      exact .operand .first
    · cases mem_ask.mp further
      exact .chosen ran
  | call callee close arguments =>
    rcases mem_followed.mp member with here | ⟨f, m₁, ran, further⟩
    · cases mem_ask.mp here
      exact .operand .first
    rcases mem_followed.mp further with here | ⟨vs, m₂, passed, last⟩
    · obtain ⟨part, m', reached, rfl⟩ := mem_parts.mp here
      exact .operand (.later ran trivial reached)
    · cases mem_ask.mp last
      exact .call ran passed
  | map pairs =>
    obtain ⟨pair, m₁, reached, asked⟩ :=
      (mem_inTurn (P := fun _ => True) fun _ => iff_of_true rfl trivial).mp member
    rcases mem_followed.mp asked with here | ⟨key, m', ran, further⟩
    · cases mem_ask.mp here
      exact .mapKey reached
    · cases mem_ask.mp further
      exact .mapValue reached ran
  -- all other forms ask for their operands and nothing else
  | _ => exact Expr.asks_of_parts member

theorem Closure.asks_of_course {id : FunctionId} {c : Closure} {arguments : List Value}
    (found : m.store.closure? id = some c) (member : q ∈ c.course setup depth arguments m) :
    Asks setup ⟨depth + 1, .invoke (.function id) arguments, m⟩ q.link ⟨depth, q.task, q.machine⟩ := by
  obtain ⟨scope, m₁, made, member⟩ := mem_after.mp member
  obtain ⟨_, m₂, bound, member⟩ := mem_after.mp member
  rcases mem_followed.mp member with here | ⟨holds, m₃, admitted, member⟩
  · obtain ⟨e, m', reached, rfl⟩ := mem_conditions.mp here
    exact .before found made bound reached
  cases holds with
  | false => exact absurd member List.not_mem_nil
  | true =>
    rcases mem_followed.mp member with here | ⟨signal, m₄, ran, member⟩
    · obtain ⟨s, m', reached, rfl⟩ := mem_statements.mp here
      exact .body found made bound admitted reached
    · obtain ⟨_, m₅, noted, member⟩ := mem_after.mp member
      obtain ⟨e, m', reached, rfl⟩ := mem_conditions.mp member
      exact .after found made bound admitted ran noted reached

theorem Stmt.asks_of_course {s : Stmt} (member : q ∈ s.course setup depth m) :
    Asks setup ⟨depth + 1, .execute s, m⟩ q.link ⟨depth, q.task, q.machine⟩ := by
  cases s with
  | block body =>
    obtain ⟨scope, m₁, made, member⟩ := mem_inNewScope.mp member
    obtain ⟨s, m', reached, rfl⟩ := mem_statements.mp member
    exact .block made reached
  | branch condition whenTrue whenFalse =>
    rcases mem_followed.mp member with here | ⟨a, m₁, ran, further⟩
    · cases mem_ask.mp here
      exact .value rfl
    -- the side that is chosen may be missing, and then nothing is asked
    · cases chosen : (if a.isTruthy then some whenTrue else whenFalse) with
      | none =>
        rw [chosen] at further
        exact absurd further List.not_mem_nil
      | some s =>
        rw [chosen] at further
        cases mem_ask.mp further
        exact .branch ran chosen
  | loop condition body =>
    obtain ⟨left, m₁, reached, here | ⟨m', held, here⟩⟩ := mem_rounds.mp member
    · cases mem_ask.mp here
      exact .condition reached
    · cases mem_ask.mp here
      exact .round reached held
  | contract kind place clauses =>
    obtain ⟨e, m', reached, rfl⟩ := mem_conditions.mp member
    exact .clause reached
  | load path place space =>
    cases mem_ask.mp member
    exact .load
  | test name place body =>
    obtain ⟨_, m₁, traced, member⟩ := mem_after.mp member
    obtain ⟨scope, m₂, made, member⟩ := mem_inNewScope.mp member
    cases mem_ask.mp member
    exact .test traced made
  | var name value | yield place value =>
    cases value with
    | none => exact absurd member List.not_mem_nil
    | some e =>
      cases mem_ask.mp member
      exact .value rfl
  | expression value | print value =>
    cases mem_ask.mp member
    exact .value rfl
  | leave place | function signature body => exact absurd member List.not_mem_nil

theorem Task.asks_of_course {task : Task} (member : q ∈ task.course setup depth m) :
    Asks setup ⟨depth + 1, task, m⟩ q.link ⟨depth, q.task, q.machine⟩ := by
  cases task with
  | evaluate e => exact Expr.asks_of_course member
  | execute s => exact Stmt.asks_of_course member
  | call place f arguments =>
    simp only [Task.course, Value.callCourse] at member
    split at member
    · exact absurd member List.not_mem_nil
    · rename_i name arity found
      split at member
      · rename_i fits
        cases List.mem_singleton.mp member
        subst fits
        exact .dispatch found
      · exact absurd member List.not_mem_nil
  | invoke f arguments =>
    cases f with
    | function id =>
      simp only [Task.course, Value.invokeCourse] at member
      split at member
      · exact absurd member List.not_mem_nil
      · rename_i c found
        exact Closure.asks_of_course found member
    | _ => exact absurd member List.not_mem_nil
  | load path place space =>
    -- an import asks for its declarations once everything in front of them has gone well
    obtain ⟨source, m₁, found, member⟩ := mem_after.mp member
    obtain ⟨_, m₂, traced, member⟩ := mem_after.mp member
    obtain ⟨program, m₃, read, member⟩ := mem_after.mp member
    obtain ⟨target, m₄, made, member⟩ := mem_after.mp member
    obtain ⟨_, m₅, entered, member⟩ := mem_after.mp member
    obtain ⟨s, m', reached, rfl⟩ := mem_statements.mp member
    exact .declaration found traced read made entered reached

end Questions

/-- An operand that is reached is asked for. -/
theorem Expr.mem_course_of_operand {setup : Setup} {depth : Nat} {e operand : Expr} {m m' : Machine}
    (reached : InTurn (evaluate setup depth) (fun _ => True) e.operands m operand m') :
    ⟨.part, .evaluate operand, m'⟩ ∈ e.course setup depth m := by
  cases e with
  | logical op place left right | choice left whenTrue whenFalse =>
    obtain ⟨rfl, rfl⟩ := reached.of_single
    exact mem_followed.mpr (.inl (mem_ask.mpr rfl))
  | call callee close arguments =>
    cases reached with
    | first => exact mem_followed.mpr (.inl (mem_ask.mpr rfl))
    | later ran _ further =>
      refine mem_followed.mpr (.inr ⟨_, _, ran, mem_followed.mpr (.inl ?_)⟩)
      exact mem_parts.mpr ⟨_, _, further, rfl⟩
  | map pairs => cases reached
  | _ => exact mem_parts.mpr ⟨_, _, reached, rfl⟩

/-- What an evaluation asks for in order is what it asks for. -/
theorem Config.mem_asked {setup : Setup} {c c' : Config} {link : Link} :
    (link, c') ∈ c.asked setup ↔ Asks setup c link c' := by
  constructor
  · intro member
    obtain ⟨depth, task, m⟩ := c
    cases depth with
    | zero => exact absurd member List.not_mem_nil
    | succ depth =>
      obtain ⟨q, asked, same⟩ := List.mem_map.mp member
      cases same
      exact Task.asks_of_course asked
  · intro asks
    -- the premises of each rule are the steps that its question follows
    have found : ∀ {depth : Nat} {task task' : Task} {m m' : Machine} {link : Link},
        ⟨link, task', m'⟩ ∈ task.course setup depth m →
          (link, ⟨depth, task', m'⟩) ∈ Config.asked setup ⟨depth + 1, task, m⟩ :=
      fun member => List.mem_map.mpr ⟨_, member, rfl⟩
    cases asks with
    | operand reached => exact found (Expr.mem_course_of_operand reached)
    | mapKey reached =>
      exact found ((mem_inTurn fun _ => iff_of_true rfl trivial).mpr
        ⟨_, _, reached, mem_followed.mpr (.inl (mem_ask.mpr rfl))⟩)
    | mapValue reached ran =>
      exact found ((mem_inTurn fun _ => iff_of_true rfl trivial).mpr
        ⟨_, _, reached, mem_followed.mpr (.inr ⟨_, _, ran, mem_ask.mpr rfl⟩)⟩)
    | @right depth op place left right a m m' ran needed =>
      refine found (mem_followed.mpr (.inr ⟨_, _, ran, ?_⟩))
      rw [needed]
      exact mem_ask.mpr rfl
    | chosen ran => exact found (mem_followed.mpr (.inr ⟨_, _, ran, mem_ask.mpr rfl⟩))
    | call ran passed =>
      exact found (mem_followed.mpr (.inr ⟨_, _, ran,
        mem_followed.mpr (.inr ⟨_, _, passed, mem_ask.mpr rfl⟩)⟩))
    | dispatch fits =>
      refine found ?_
      simp only [Task.course, Value.callCourse, fits, if_true]
      exact List.mem_singleton.mpr rfl
    | before closure made bound reached =>
      refine found ?_
      simp only [Task.course, Value.invokeCourse, closure]
      exact mem_after.mpr ⟨_, _, made, mem_after.mpr ⟨_, _, bound,
        mem_followed.mpr (.inl (mem_conditions.mpr ⟨_, _, reached, rfl⟩))⟩⟩
    | body closure made bound admitted reached =>
      refine found ?_
      simp only [Task.course, Value.invokeCourse, closure]
      exact mem_after.mpr ⟨_, _, made, mem_after.mpr ⟨_, _, bound,
        mem_followed.mpr (.inr ⟨_, _, admitted,
          mem_followed.mpr (.inl (mem_statements.mpr ⟨_, _, reached, rfl⟩))⟩)⟩⟩
    | after closure made bound admitted ran noted reached =>
      refine found ?_
      simp only [Task.course, Value.invokeCourse, closure]
      exact mem_after.mpr ⟨_, _, made, mem_after.mpr ⟨_, _, bound,
        mem_followed.mpr (.inr ⟨_, _, admitted,
          mem_followed.mpr (.inr ⟨_, _, ran, mem_after.mpr ⟨_, _, noted,
            mem_conditions.mpr ⟨_, _, reached, rfl⟩⟩⟩)⟩)⟩⟩
    | @value depth s e m starts =>
      refine found ?_
      cases s with
      | branch condition whenTrue whenFalse =>
        cases starts
        exact mem_followed.mpr (.inl (mem_ask.mpr rfl))
      | expression value | print value | var name value | yield place value =>
        cases starts
        exact mem_ask.mpr rfl
      | _ => cases starts
    | clause reached => exact found (mem_conditions.mpr ⟨_, _, reached, rfl⟩)
    | block made reached =>
      exact found (mem_inNewScope.mpr ⟨_, _, made, mem_statements.mpr ⟨_, _, reached, rfl⟩⟩)
    | branch ran chosen =>
      refine found (mem_followed.mpr (.inr ⟨_, _, ran, ?_⟩))
      rw [chosen]
      exact mem_ask.mpr rfl
    | condition reached => exact found (mem_rounds.mpr ⟨_, _, reached, .inl (mem_ask.mpr rfl)⟩)
    | round reached held =>
      exact found (mem_rounds.mpr ⟨_, _, reached, .inr ⟨_, held, mem_ask.mpr rfl⟩⟩)
    | test traced made =>
      exact found (mem_after.mpr ⟨_, _, traced, mem_inNewScope.mpr ⟨_, _, made, mem_ask.mpr rfl⟩⟩)
    | load => exact found (mem_ask.mpr rfl)
    | declaration source traced read made entered reached =>
      exact found (mem_after.mpr ⟨_, _, source, mem_after.mpr ⟨_, _, traced,
        mem_after.mpr ⟨_, _, read, mem_after.mpr ⟨_, _, made, mem_after.mpr ⟨_, _, entered,
          mem_statements.mpr ⟨_, _, reached, rfl⟩⟩⟩⟩⟩⟩)

/-! ## Chronicles -/

/-- All evaluations in the course of one, in the order in which they end. -/
def chronicle (setup : Setup) : Nat → Task → Machine → List Config
  | 0, task, m => [⟨0, task, m⟩]
  | depth + 1, task, m =>
    (task.course setup depth m).flatMap (fun q => chronicle setup depth q.task q.machine)
      ++ [⟨depth + 1, task, m⟩]

/-- All evaluations in the course of one, in the order in which they end. -/
def Config.chronicle (setup : Setup) (c : Config) : List Config :=
  ContractScript.chronicle setup c.depth c.task c.machine

/-- An evaluation ends right after everything it asked for. -/
theorem Config.chronicle_eq (setup : Setup) (c : Config) :
    c.chronicle setup = (c.asked setup).flatMap (fun asked => asked.2.chronicle setup) ++ [c] := by
  obtain ⟨depth, task, m⟩ := c
  cases depth with
  | zero => rfl
  | succ depth =>
    unfold Config.chronicle Config.asked
    rw [ContractScript.chronicle, List.flatMap_map]

/-- The chronicle has the evaluations that trails lead to. -/
theorem Config.mem_chronicle {setup : Setup} {c c' : Config} :
    c' ∈ c.chronicle setup ↔ ∃ links, Trail setup c links c' := by
  constructor
  · intro member
    obtain ⟨depth, task, m⟩ := c
    -- a question has one level less than the evaluation that asks it, so the induction is on levels
    induction depth generalizing task m with
    | zero =>
      cases List.mem_singleton.mp member
      exact ⟨[], .here⟩
    | succ depth ih =>
      rw [Config.chronicle_eq, List.mem_append, List.mem_flatMap] at member
      rcases member with ⟨⟨link, c₁⟩, asked, member⟩ | member
      · obtain ⟨q, -, same⟩ := List.mem_map.mp asked
        cases same
        obtain ⟨links, trail⟩ := ih _ _ member
        exact ⟨_ :: links, .step (Config.mem_asked.mp asked) trail⟩
      · cases List.mem_singleton.mp member
        exact ⟨[], .here⟩
  · rintro ⟨links, trail⟩
    induction trail with
    | here =>
      rw [Config.chronicle_eq]
      exact List.mem_append_right _ (List.mem_singleton.mpr rfl)
    | step asks _ ih =>
      rw [Config.chronicle_eq, List.mem_append, List.mem_flatMap]
      exact .inl ⟨_, Config.mem_asked.mpr asks, ih⟩

/-- A way from an evaluation down to one in its course, with everything that has ended when that
one starts. -/
inductive Past (setup : Setup) : Config → List Config → Config → Prop
  | here {c : Config} : Past setup c [] c
  | step {c c₁ c' : Config} {link : Link} {earlier later : List (Link × Config)} {ended : List Config}
      (asked : c.asked setup = earlier ++ (link, c₁) :: later) (further : Past setup c₁ ended c') :
      Past setup c (earlier.flatMap (fun asked => asked.2.chronicle setup) ++ ended) c'

/-- Whatever a trail leads to has a past. -/
theorem Trail.past {setup : Setup} {c c' : Config} {links : List Link}
    (trail : Trail setup c links c') : ∃ ended, Past setup c ended c' := by
  induction trail with
  | here => exact ⟨[], .here⟩
  | step asks _ ih =>
    obtain ⟨ended, further⟩ := ih
    obtain ⟨earlier, later, asked⟩ := List.append_of_mem (Config.mem_asked.mpr asks)
    exact ⟨_, .step asked further⟩

/-- What has ended by then, and the evaluation that is reached, are the beginning of the chronicle. -/
theorem Past.prefix_chronicle {setup : Setup} {c c' : Config} {ended : List Config}
    (past : Past setup c ended c') : ended ++ c'.chronicle setup <+: c.chronicle setup := by
  induction past with
  | here => exact List.prefix_rfl
  | @step c c₁ c' link earlier later ended asked _ ih =>
    rw [Config.chronicle_eq setup c, asked, List.flatMap_append, List.flatMap_cons]
    obtain ⟨rest, whole⟩ := ih
    rw [← whole]
    simp only [List.append_assoc, List.prefix_append_right_inj]
    exact List.prefix_append _ _

end ContractScript
