/-
Every failure is a fault of the program, but for a few.

Nothing in the language catches a defect: it leaves every evaluation that it reaches, calls
and tests included, and ends the script. So an evaluation breaks exactly if one that it asks
for breaks, or if it stumbles itself; and only few evaluations can stumble. They are those in
which something outside the language refuses in a way that is not turned into a fault. This is
shown along the course of each evaluation, with want of levels left aside, and so are loops that
are not followed to their end. By induction on the levels a script ends with a defect exactly if there is a trail
from one of its statements down to an evaluation that stumbles. All other failures are faults,
which a test records and a report locates.
-/
import ContractScript.Proofs.Run.Blame
import ContractScript.Proofs.Run.Breaking
import ContractScript.Proofs.Run.TestResults

set_option autoImplicit false

namespace ContractScript

open EvalM Course

/-! ## Evaluations that break -/

/-- An evaluation ends with a defect. -/
def Config.Breaks (setup : Setup) (c : Config) (d : Defect) : Prop :=
  match c.task with
  | .evaluate e => EvalM.Breaks (evaluate setup c.depth e) c.machine d
  | .call place g arguments => EvalM.Breaks (callValue setup c.depth place g arguments) c.machine d
  | .invoke g arguments => EvalM.Breaks (invoke setup c.depth g arguments) c.machine d
  | .execute s => EvalM.Breaks (execute setup c.depth s) c.machine d
  | .load path place space => EvalM.Breaks (importModule setup c.depth path place space) c.machine d

/-- An evaluation is where a defect begins, want of levels aside. -/
inductive Config.Stumbles (setup : Setup) : Config → Defect → Prop
  /-- The remainder of an infinite number. -/
  | remainder {depth : Nat} {place : Place} {left right : Expr} {m m₁ m₂ : Machine} {x y : Float}
      (first : evaluate setup depth left m = .ok (.num x) m₁)
      (second : evaluate setup depth right m₁ = .ok (.num y) m₂)
      (infinite : Number.isInfinite x = true) (nonzero : Number.isZero y = false)
      (number : Number.isNaN y = false) :
      Stumbles setup ⟨depth + 1, .evaluate (.binary .remainder place left right), m⟩ .mathDomain
  /-- An input that the user interrupts. -/
  | input {depth : Nat} {prompt : Value} {text : String} {m : Machine} {rest : List Typed}
      (shown : m.store.show? (depth / 3 + 1) false prompt = some text)
      (typed : m.host.typed = .interrupt :: rest) :
      Stumbles setup ⟨depth + 1, .invoke (.native .input) [prompt], m⟩ .interrupted
  /-- A file that is read and has no path or no text. -/
  | read {depth : Nat} {path : String} {m : Machine} {problem : FileTree.Problem} {d : Defect}
      (unread : m.host.read setup.settings.directory path = .error problem)
      (same : problem.defect? = some d) :
      Stumbles setup ⟨depth + 1, .invoke (.native .read) [.text path], m⟩ d
  /-- A file that is written and has no path. -/
  | write {depth : Nat} {path content : String} {m : Machine} {problem : FileTree.Problem} {d : Defect}
      (unwritten : m.host.write setup.settings.directory path content = .error problem)
      (same : problem.defect? = some d) :
      Stumbles setup ⟨depth + 1, .invoke (.native .write) [.text path, .text content], m⟩ d
  /-- A pause between requests that cannot be made. -/
  | request {depth : Nat} {url : String} {m : Machine} {e : Http.PauseError}
      (sent : (m.host.network.send ⟨"GET", url, []⟩
        ⟨setup.settings.httpRetries, setup.settings.httpBackoff⟩).1 = some (.error (.pause e))) :
      Stumbles setup ⟨depth + 1, .invoke (.native .http) [.text url, .text "GET"], m⟩ (.pause e)
  /-- A module that has no path or no text. -/
  | load {depth : Nat} {path : String} {place : Place} {space : Option Lexeme} {m : Machine}
      {e : Module.LoadError} {d : Defect}
      (unread : Module.load setup.loaders m.host.site m.directory path = .error e)
      (same : e.defect? = some d) : Stumbles setup ⟨depth + 1, .load path place space, m⟩ d

/-- Of the built-in functions some stumble, and no other breaks. -/
theorem Native.breaks_call {setup : Setup} {depth : Nat} {g : Native} {arguments : List Value}
    {m : Machine} {d : Defect} (levels : d ≠ .tooDeep) :
    EvalM.Breaks (g.call setup depth arguments) m d ↔
      Config.Stumbles setup ⟨depth + 1, .invoke (.native g) arguments, m⟩ d := by
  constructor
  · intro broke
    have firm : ∀ {α : Type} {step : EvalM α} {m' : Machine}, Firm step → EvalM.Breaks step m' d →
        Config.Stumbles setup ⟨depth + 1, .invoke (.native g) arguments, m⟩ d :=
      fun h broke => absurd broke (h.never levels)
    unfold Native.call at broke
    -- one case for each function, in the order in which they are defined
    split at broke
    · obtain ⟨rfl, ⟨text, shown⟩, rest, typed⟩ := (breaks_readLine levels).mp broke
      exact .input shown typed
    · exact firm (.length depth _) broke
    · exact firm (.total fun m => ⟨_, _, rfl⟩) broke
    · exact firm (.total fun m => ⟨_, _, rfl⟩) broke
    · exact firm (.bind (.expectMap depth _) fun _ => .bind .get fun _ => .newList _) broke
    · exact firm (.bind (.expectMap depth _) fun _ => .bind .get fun _ => .newList _) broke
    · exact firm (.bind (.expectMap depth _) fun _ => .bind (.keyOf depth _) fun _ =>
        .bind (.modify _) fun _ => .pure _) broke
    · split at broke
      · exact firm (.bind (.modify _) fun _ => .pure _) broke
      · exact firm (.reject depth _ _) broke
    · obtain ⟨path, rfl, reading⟩ := (breaks_expectText levels).mp broke
      obtain ⟨problem, unread, same⟩ := breaks_readFile.mp reading
      exact .read unread same
    · obtain ⟨path, rfl, opening⟩ := (breaks_expectText levels).mp broke
      obtain ⟨content, rfl, writing⟩ := (breaks_expectText levels).mp opening
      obtain ⟨problem, unwritten, same⟩ := (breaks_writeFile levels).mp writing
      exact .write unwritten same
    · obtain ⟨url, rfl, fetching⟩ := (breaks_expectText levels).mp broke
      split at fetching
      · obtain ⟨e, rfl, sent⟩ := breaks_fetch.mp fetching
        exact .request sent
      · exact firm (.reject depth _ _) fetching
    · exact firm (.pure _) broke
  · intro stumbles
    cases stumbles with
    | input shown typed => exact (breaks_readLine levels).mpr ⟨rfl, ⟨_, shown⟩, _, typed⟩
    | read unread same => exact breaks_readFile.mpr ⟨_, unread, same⟩
    | write unwritten same => exact (breaks_writeFile levels).mpr ⟨_, unwritten, same⟩
    | request sent => exact breaks_fetch.mpr ⟨_, rfl, sent⟩

/-! ## Defects along a course -/

/-- The answer to a question breaks. -/
def Question.Breaks (setup : Setup) (depth : Nat) (q : Question) (d : Defect) : Prop :=
  Config.Breaks setup ⟨depth, q.task, q.machine⟩ d

/-- A step breaks exactly where something that it asks for does, want of levels aside. -/
def Relays {α : Type} (setup : Setup) (depth : Nat) (step : EvalM α) (course : Course) : Prop :=
  ∀ m d, d ≠ .tooDeep → (EvalM.Breaks step m d ↔ ∃ q ∈ course m, q.Breaks setup depth d)

namespace Relays

variable {α β : Type} {setup : Setup} {depth : Nat} {step : EvalM α} {course : Course}

theorem silent (firm : Firm step) : Relays setup depth step silent :=
  fun _ _ levels => iff_of_false (firm.never levels) (by simp [Course.silent])

/-- A step that just asks. -/
theorem ask {task : Task} (link : Link) (same : ∀ m d, EvalM.Breaks step m d ↔
    Config.Breaks setup ⟨depth, task, m⟩ d) : Relays setup depth step (ask link task) := by
  intro m d _
  rw [same]
  simp [Course.ask, Question.Breaks]

/-- What follows a step breaks exactly where one of the questions behind it does. -/
theorem behind {f : α → EvalM β} {next : α → Course} (then_ : ∀ a, Relays setup depth (f a) (next a))
    {m : Machine} {d : Defect} (levels : d ≠ .tooDeep) :
    (∃ a m₁, step m = .ok a m₁ ∧ EvalM.Breaks (f a) m₁ d) ↔
      ∃ q ∈ Course.after step next m, q.Breaks setup depth d := by
  simp only [mem_after]
  constructor
  · rintro ⟨a, m₁, ran, broke⟩
    obtain ⟨q, asked, broke⟩ := (then_ a m₁ d levels).mp broke
    exact ⟨q, ⟨a, m₁, ran, asked⟩, broke⟩
  · rintro ⟨q, ⟨a, m₁, ran, asked⟩, broke⟩
    exact ⟨a, m₁, ran, (then_ a m₁ d levels).mpr ⟨q, asked, broke⟩⟩

theorem bind {f : α → EvalM β} {next : α → Course} (first : Relays setup depth step course)
    (then_ : ∀ a, Relays setup depth (f a) (next a)) :
    Relays setup depth (step >>= f) (course.followed step next) := by
  intro m d levels
  rw [breaks_bind, first m d levels, behind then_ levels]
  simp only [Course.followed, List.mem_append, or_and_right, exists_or]

theorem compositional (setup : Setup) (depth : Nat) :
    Compositional fun _ step course => Relays setup depth step course where
  pure a := silent (.pure a)
  key depth v := silent (.keyOf depth v)
  bind := bind

theorem after {f : α → EvalM β} {next : α → Course} (firm : Firm step)
    (then_ : ∀ a, Relays setup depth (f a) (next a)) :
    Relays setup depth (step >>= f) (Course.after step next) :=
  bind (silent firm) then_

theorem before {f : α → EvalM β} (first : Relays setup depth step course)
    (firm : ∀ a, Firm (f a)) : Relays setup depth (step >>= f) course :=
  (compositional setup depth).before first fun a => silent (firm a)

theorem inScope (h : Relays setup depth step course) (scope : ScopeId) :
    Relays setup depth (EvalM.inScope scope step) (course.inScope scope) :=
  fun m d levels => breaks_inScope.trans (h { m with scope := scope } d levels)

theorem inImport (h : Relays setup depth step course) (name : String) :
    Relays setup depth (EvalM.inImport name step)
      (fun m => course { m with importing := name :: m.importing }) :=
  fun m d levels => breaks_inImport.trans (h { m with importing := name :: m.importing } d levels)

theorem asTest (h : Relays setup depth step course) (name : String) (line : Nat) :
    Relays setup depth (EvalM.asTest name line step) course := by
  have caught : Relays setup depth (catchFault step) course :=
    fun m d levels => breaks_catchFault.trans (h m d levels)
  exact caught.before fun _ => .modify _

/-- A step in a new scope inside the current one. -/
theorem inNewScope {f : EvalM α → EvalM β} (swaps : ∀ scope, Relays setup depth
      (f (EvalM.inScope scope step)) (course.inScope scope)) :
    Relays setup depth
      (do
        let m ← get
        let scope ← newScope (some m.scope)
        f (EvalM.inScope scope step))
      course.inNewScope := by
  intro m d levels
  have made : Firm (newScope (some m.scope)) := .onStore _
  rw [breaks_get, after made swaps m d levels]
  rfl

end Relays

/-! ## Evaluation -/

section Level

theorem relays_evaluate (setup : Setup) (depth : Nat) (e : Expr) :
    Relays setup depth (evaluate setup depth e) (part e) :=
  .ask .part fun _ _ => Iff.rfl

theorem relays_execute (setup : Setup) (depth : Nat) (link : Link) (s : Stmt) :
    Relays setup depth (execute setup depth s) (ask link (.execute s)) :=
  .ask link fun _ _ => Iff.rfl

variable {setup : Setup} {depth : Nat}

/-- Expressions other than remainders only pass on what breaks. -/
theorem Expr.relays {e : Expr} (other : ∀ place left right, e ≠ .binary .remainder place left right) :
    Relays setup depth (evaluate setup (depth + 1) e) (e.course setup depth) := by
  have value := relays_evaluate setup depth
  have along := Relays.compositional setup depth
  cases e with
  | literal value => exact .silent (.pure _)
  | «variable» name => exact .silent (.lookup name)
  | qualified spaces name => exact .silent (.lookupQualified spaces name)
  | group inner =>
    have whole := (value inner).bind fun v => .silent (.pure v)
    rw [bind_pure] at whole
    exact whole
  | assign name e => exact .bind (value e) fun v => .silent (.bind (.assign name v) fun _ => .pure _)
  | unary op place operand => exact .bind (value operand) fun v => .silent (.unaryOp op place v)
  | binary op place left right =>
    -- the remainder is the one operator that can break
    have firm : op ≠ .remainder := by
      rintro rfl
      exact other place left right rfl
    exact .bind (value left) fun a => .bind (value right) fun b =>
      .silent (.binaryOp firm depth place a b)
  | logical op place left right =>
    refine .bind (value left) fun a => ?_
    cases op with
    | and =>
      cases h : a.isTruthy <;> simp only [h, LogicalOp.needsRight]
      · exact .silent (.pure _)
      · exact value right
    | or =>
      cases h : a.isTruthy <;> simp only [h, LogicalOp.needsRight]
      · exact value right
      · exact .silent (.pure _)
  | choice condition whenTrue whenFalse =>
    refine .bind (value condition) fun a => ?_
    split
    · exact value whenTrue
    · exact value whenFalse
  | call callee close arguments =>
    exact .bind (value callee) fun f => .bind (along.values value arguments) fun vs =>
      .ask .part fun _ _ => Iff.rfl
  | list items => exact .before (along.values value items) fun _ => .newList _
  | map pairs =>
    exact .before (along.entries depth value pairs .empty) fun _ => .bind (.onStore _) fun _ => .pure _
  | index collection bracket key =>
    exact .bind (value collection) fun c => .bind (value key) fun k =>
      .silent (.indexValue depth bracket c k)
  | slice collection bracket first last =>
    exact .bind (value collection) fun c => .bind (value first) fun low =>
      .bind (value last) fun high => .silent (.sliceValue bracket c low high)

theorem Value.relays_call (place : Place) (f : Value) (arguments : List Value) :
    Relays setup depth (callValue setup (depth + 1) place f arguments)
      (f.callCourse place arguments) := by
  intro m d levels
  rw [callValue_succ, breaks_get]
  unfold Value.callCourse
  cases found : m.store.callable? f with
  | none => exact iff_of_false ((Firm.failAt _ _).never levels) (by simp)
  | some callable =>
    obtain ⟨name, arity⟩ := callable
    dsimp only
    by_cases fits : arguments.length = arity
    · rw [if_pos fits, if_neg (by simpa using fits), breaks_inCall levels]
      simp [Question.Breaks, Config.Breaks]
    · rw [if_neg fits, if_pos (by simpa using fits)]
      exact iff_of_false ((Firm.failAt _ _).never levels) (by simp)

/-- Values other than built-in functions only pass on what breaks. -/
theorem Value.relays_invoke {f : Value} (other : ∀ g, f ≠ .native g) (arguments : List Value) :
    Relays setup depth (invoke setup (depth + 1) f arguments)
      (f.invokeCourse setup depth arguments) := by
  cases f with
  | native g => exact absurd rfl (other g)
  | function id =>
    intro m d levels
    rw [invoke, breaks_get]
    unfold Value.invokeCourse
    dsimp only
    cases m.store.closure? id with
    | none => exact iff_of_false (breaks_pure _) (by simp)
    | some c =>
      refine (?_ : Relays setup depth _ (c.course setup depth arguments)) m d levels
      refine .after (.onStore _) fun scope => .after (.bindArguments _ _ _) fun _ => ?_
      have along := Relays.compositional setup depth
      -- contracts and body are asked for in the scope of the call
      have conditions (es : List Expr) :=
        Relays.inScope (along.allHold (relays_evaluate setup depth) es) scope
      have body := Relays.inScope (along.sequence (relays_execute setup depth .body) c.body) scope
      refine .bind (conditions _) fun before => ?_
      cases before with
      | false => exact .silent (.stopped _ _)
      | true =>
        refine .bind body fun signal => .after (.modify _) fun _ => .before (conditions _) fun after => ?_
        exact .orFail (.pure _)
  | _ => exact .silent (.pure _)

/-- Statements only pass on what breaks. -/
theorem Stmt.relays (s : Stmt) :
    Relays setup depth (execute setup (depth + 1) s) (s.course setup depth) := by
  have value := relays_evaluate setup depth
  have along := Relays.compositional setup depth
  have inner := relays_execute setup depth .inner
  cases s with
  | expression e => exact .before (value e) fun _ => .pure _
  | print e =>
    exact .before (value e) fun _ => .bind (.shown depth _) fun _ => .bind (.note _) fun _ => .pure _
  | var name e =>
    cases e with
    | none => exact .silent (.bind (.pure _) fun _ => .bind (.modify _) fun _ => .pure _)
    | some e => exact .before (value e) fun _ => .bind (.modify _) fun _ => .pure _
  | block body =>
    exact Relays.inNewScope (f := id) fun scope =>
      .inScope (along.sequence inner body) scope
  | branch condition whenTrue whenFalse =>
    refine .bind (value condition) fun a => ?_
    cases a.isTruthy with
    | true => exact inner whenTrue
    | false =>
      cases whenFalse with
      | none => exact .silent (.pure _)
      | some s => exact inner s
  | loop condition body =>
    -- a loop that uses up its rounds is left unfinished, which is no defect
    have spent : Firm (throw .unfinished : EvalM Signal) := fun _ _ broke => nomatch broke
    exact along.iterate (.silent spent) (.before (value condition) fun _ => .pure _) (inner body) _
  | leave place => exact .silent (.pure _)
  | yield place e =>
    cases e with
    | none => exact .silent (.pure _)
    | some e => exact .before (value e) fun _ => .pure _
  | function signature body =>
    exact .silent (.bind .get fun _ => .bind (.onStore _) fun _ => .bind (.modify _) fun _ => .pure _)
  | contract kind place clauses =>
    refine .before (along.allHold value clauses.conditions) fun holds => ?_
    split
    · exact .pure _
    · cases kind with
      | assertion => exact .failAt _ _
      | check => exact .bind (.note _) fun _ => .pure _
  | load path place space => exact .before (.ask .part fun _ _ => Iff.rfl) fun _ => .pure _
  | test name place body =>
    refine .after (.trace setup _) fun _ =>
      Relays.inNewScope (f := fun step => asTest name place.line step >>= fun _ => pure Signal.next)
        fun scope => ?_
    -- a test catches faults, but no defects
    have inside := (relays_execute setup depth .test body).inScope scope
    exact (inside.asTest name place.line).before fun _ => .pure _

/-- An import breaks where its module cannot be read, or where a declaration does. -/
theorem breaks_importModule {path : String} {place : Place} {space : Option Lexeme} {m : Machine}
    {d : Defect} (levels : d ≠ .tooDeep) :
    EvalM.Breaks (importModule setup (depth + 1) path place space) m d ↔
      EvalM.Breaks (findModule setup (pathLexeme path place) path) m d ∨
        ∃ q ∈ loadCourse setup depth path place space m, q.Breaks setup depth d := by
  have along := Relays.compositional setup depth
  -- once the module is found, only its declarations can break
  rw [importModule_succ, breaks_bind]
  refine or_congr Iff.rfl (Relays.behind (fun source => ?_) levels)
  refine .after (.trace setup _) fun _ => .inImport ?_ source.name
  exact .after (.moduleDeclarations _ _ source) fun program => .after (.importTarget setup space)
    fun target => .after (.enterDirectory _) fun _ => .before
      (.inScope (along.sequence (relays_execute setup depth _) program) target) fun _ => .pure _

/-! ## Where defects begin -/

theorem Expr.breaks_iff {e : Expr} {m : Machine} {d : Defect} (levels : d ≠ .tooDeep) :
    EvalM.Breaks (evaluate setup (depth + 1) e) m d ↔
      Config.Stumbles setup ⟨depth + 1, .evaluate e, m⟩ d ∨
        ∃ q ∈ e.course setup depth m, q.Breaks setup depth d := by
  by_cases remainder : ∃ place left right, e = .binary .remainder place left right
  · obtain ⟨place, left, right, rfl⟩ := remainder
    -- either an operand breaks, or both have a value and the operator breaks
    have operands := (Relays.compositional setup depth).values (relays_evaluate setup depth) [left, right]
    rw [evaluate_eq, breaks_bind, or_comm]
    refine or_congr ?_ (operands m d levels)
    constructor
    · rintro ⟨vs, m₂, ran, broke⟩
      obtain ⟨a, ws, m₁, rfl, first, ran⟩ := values_cons_ok ran
      obtain ⟨b, ws, m₂, rfl, second, ran⟩ := values_cons_ok ran
      obtain ⟨rfl, rfl⟩ := values_nil_ok ran
      rw [Expr.finish, breaks_remainder] at broke
      obtain ⟨rfl, x, y, rfl, rfl, infinite, nonzero, number⟩ := broke
      exact .remainder first second infinite nonzero number
    · intro stumbles
      cases stumbles with
      | remainder first second infinite nonzero number =>
        refine ⟨_, _, values_cons first (values_cons second rfl), ?_⟩
        rw [Expr.finish, breaks_remainder]
        exact ⟨rfl, _, _, rfl, rfl, infinite, nonzero, number⟩
  · have other : ∀ place left right, e ≠ .binary .remainder place left right :=
      fun place left right same => remainder ⟨place, left, right, same⟩
    rw [Expr.relays other m d levels]
    refine (or_iff_right ?_).symm
    intro stumbles
    cases stumbles
    exact other _ _ _ rfl

theorem Value.breaks_invoke {f : Value} {arguments : List Value} {m : Machine} {d : Defect}
    (levels : d ≠ .tooDeep) : EvalM.Breaks (invoke setup (depth + 1) f arguments) m d ↔
      Config.Stumbles setup ⟨depth + 1, .invoke f arguments, m⟩ d ∨
        ∃ q ∈ f.invokeCourse setup depth arguments m, q.Breaks setup depth d := by
  by_cases builtIn : ∃ g, f = .native g
  · obtain ⟨g, rfl⟩ := builtIn
    have called : EvalM.Breaks (invoke setup (depth + 1) (.native g) arguments) m d ↔ _ :=
      Native.breaks_call levels
    rw [called]
    simp [Value.invokeCourse]
  · have other : ∀ g, f ≠ .native g := fun g same => builtIn ⟨g, same⟩
    rw [Value.relays_invoke other arguments m d levels]
    refine (or_iff_right ?_).symm
    intro stumbles
    cases stumbles <;> exact other _ rfl

theorem Stmt.breaks_iff {s : Stmt} {m : Machine} {d : Defect} (levels : d ≠ .tooDeep) :
    EvalM.Breaks (execute setup (depth + 1) s) m d ↔
      Config.Stumbles setup ⟨depth + 1, .execute s, m⟩ d ∨
        ∃ q ∈ s.course setup depth m, q.Breaks setup depth d := by
  rw [s.relays m d levels]
  refine (or_iff_right ?_).symm
  intro stumbles
  cases stumbles

/-- An evaluation breaks exactly where it stumbles or something that it asks for breaks. -/
theorem Task.breaks_iff {task : Task} {m : Machine} {d : Defect} (levels : d ≠ .tooDeep) :
    Config.Breaks setup ⟨depth + 1, task, m⟩ d ↔ Config.Stumbles setup ⟨depth + 1, task, m⟩ d ∨
      ∃ q ∈ task.course setup depth m, q.Breaks setup depth d := by
  cases task with
  | evaluate e => exact Expr.breaks_iff levels
  | invoke f arguments => exact Value.breaks_invoke levels
  | execute s => exact Stmt.breaks_iff levels
  | call place f arguments =>
    refine (Value.relays_call place f arguments m d levels).trans (or_iff_right ?_).symm
    intro stumbles
    cases stumbles
  | load path place space =>
    refine (breaks_importModule levels).trans (or_congr ?_ Iff.rfl)
    rw [breaks_findModule]
    constructor
    · rintro ⟨e, unread, same⟩
      exact .load unread same
    · intro stumbles
      cases stumbles with
      | load unread same => exact ⟨_, unread, same⟩

end Level

theorem Config.breaks_iff {setup : Setup} {c : Config} {d : Defect} (levels : d ≠ .tooDeep) :
    c.Breaks setup d ↔ c.Stumbles setup d ∨ ∃ link c', Asks setup c link c' ∧ c'.Breaks setup d := by
  obtain ⟨depth, task, m⟩ := c
  simp only [← Config.mem_asked]
  cases depth with
  | zero =>
    -- without levels there is no other defect
    have none : ¬ Config.Breaks setup ⟨0, task, m⟩ d := by
      have deep : ∀ {α : Type}, ¬ EvalM.Breaks (throw (.defect .tooDeep) : EvalM α) m d := by
        simpa using levels.symm
      cases task <;> exact deep
    refine iff_of_false none ?_
    rintro (stumbles | ⟨link, c', asked, -⟩)
    · cases stumbles
    · exact absurd asked List.not_mem_nil
  | succ depth =>
    rw [Task.breaks_iff levels]
    refine or_congr Iff.rfl ?_
    constructor
    · rintro ⟨q, asked, broke⟩
      exact ⟨q.link, _, List.mem_map.mpr ⟨q, asked, rfl⟩, broke⟩
    · rintro ⟨link, c', asked, broke⟩
      obtain ⟨q, member, same⟩ := List.mem_map.mp asked
      cases same
      exact ⟨q, member, broke⟩

/-- Nothing on a trail stops a defect. -/
theorem Trail.breaks {setup : Setup} {c p : Config} {links : List Link} {d : Defect}
    (trail : Trail setup c links p) (levels : d ≠ .tooDeep) (broke : p.Breaks setup d) :
    c.Breaks setup d := by
  induction trail with
  | here => exact broke
  | step asks _ ih => exact (Config.breaks_iff levels).mpr (.inr ⟨_, _, asks, ih broke⟩)

/-- Every defect begins at the end of a trail. -/
theorem Config.Breaks.origin {setup : Setup} {c : Config} {d : Defect} (broke : c.Breaks setup d)
    (levels : d ≠ .tooDeep) : ∃ links p, Trail setup c links p ∧ p.Stumbles setup d := by
  rcases (Config.breaks_iff levels).mp broke with stumbles | ⟨link, c', asks, below⟩
  · exact ⟨[], c, .here, stumbles⟩
  · -- what is asked for has fewer levels
    have fewer := asks.depth
    obtain ⟨links, p, trail, stumbles⟩ := below.origin levels
    exact ⟨link :: links, p, .step asks trail, stumbles⟩
termination_by c.depth

/-- An evaluation breaks exactly if a trail leads from it to one that stumbles. -/
theorem Config.breaks_iff_trail {setup : Setup} {c : Config} {d : Defect} (levels : d ≠ .tooDeep) :
    c.Breaks setup d ↔ ∃ links p, Trail setup c links p ∧ p.Stumbles setup d := by
  constructor
  · exact fun broke => broke.origin levels
  · rintro ⟨links, p, trail, stumbles⟩
    exact trail.breaks levels ((Config.breaks_iff levels).mpr (.inl stumbles))

/-! ## Sessions -/

theorem breaks_runTop {setup : Setup} {s : Stmt} {m : Machine} {d : Defect} (levels : d ≠ .tooDeep) :
    EvalM.Breaks (runTop setup s) m d ↔ Config.Breaks setup (.top setup s m) d := by
  cases s with
  | expression e =>
    refine Firm.breaks_bind_iff (fun v => ?_) levels
    split
    · exact .bind (.shown _ _) fun _ => .bind (.note _) fun _ => .pure _
    · exact .pure _
  | _ => exact Firm.breaks_bind_iff (fun _ => .pure _) levels

/-- A program breaks where one of its statements does that is reached. -/
theorem breaks_runAll {setup : Setup} {program : Program} {d : Defect} (levels : d ≠ .tooDeep) :
    ∀ {last : Value} {m : Machine}, EvalM.Breaks (runAll setup last program) m d ↔
      ∃ s m', InTurn (runTop setup) (fun _ => True) program m s m' ∧
        Config.Breaks setup (.top setup s m') d := by
  induction program with
  | nil =>
    intro last m
    refine iff_of_false (breaks_pure _) ?_
    rintro ⟨s, m', reached, -⟩
    cases reached
  | cons s rest ih =>
    intro last m
    rw [runAll, breaks_bind, breaks_runTop levels]
    constructor
    · rintro (broke | ⟨v, m₁, ran, broke⟩)
      · exact ⟨s, m, .first, broke⟩
      · obtain ⟨s', m', reached, broke⟩ := ih.mp broke
        exact ⟨s', m', .later ran trivial reached, broke⟩
    · rintro ⟨s', m', reached, broke⟩
      cases reached with
      | first => exact .inl broke
      | later ran _ further => exact .inr ⟨_, _, ran, ih.mpr ⟨s', m', further, broke⟩⟩

namespace Session

end Session

/-- The surroundings of a run that has one file, of one byte that begins no character. -/
def Host.garbled : Host :=
  { Host.bare with files := FileTree.empty.insert ["a.bin"] (.file ⟨#[0xff]⟩) }

end ContractScript
