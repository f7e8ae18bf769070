/-
Evaluation gone through once.

What is shown of a run by going through its evaluations is a relation between steps and their
courses. On most of evaluation such relations do not differ. The steps between questions are lookups,
operators and the like; they ask for nothing, and they leave alone whatever the relation is about. So
a relation that holds of these steps and of single questions, and of a sequence whenever it holds of
its parts, holds of all expressions, and of all statements that make neither a scope nor a function.
-/
import ContractScript.Proofs.Run.Circularity
import ContractScript.Proofs.Run.Course

set_option autoImplicit false

namespace ContractScript

open EvalM Course

/-- The state in which the answer to a question ends. -/
def Question.ended (setup : Setup) (depth : Nat) (q : Question) : Machine :=
  Config.finalState setup ⟨depth, q.task, q.machine⟩

/-- A relation between steps and courses that goes through evaluation: it holds of steps that keep a
view of the state and ask for nothing, of single questions, and of sequences of what it holds of. -/
structure Traversal {γ : Type} (setup : Setup) (depth : Nat) (view : Machine → γ)
    (P : (α : Type) → EvalM α → Course → Prop) : Prop where
  silent {α : Type} {step : EvalM α} (kept : Keeps view step) : P α step Course.silent
  ask {α : Type} {step : EvalM α} {task : Task} (link : Link)
    (same : ∀ m, finalState step m = Config.finalState setup ⟨depth, task, m⟩) :
    P α step (Course.ask link task)
  bind {α β : Type} {step : EvalM α} {f : α → EvalM β} {course : Course} {next : α → Course}
    (first : P α step course) (then_ : ∀ a, P β (f a) (next a)) :
    P β (step >>= f) (course.followed step next)

/-- Whether an expression may make a list or map of its own. -/
def Expr.isMaker : Expr → Bool
  | .list _ => true
  | .map _ => true
  | .slice _ _ _ _ => true
  | .binary op _ _ _ => op == .add
  | _ => false

/-- Whether a statement makes neither a scope of its own nor a function. -/
def Stmt.isPlain : Stmt → Bool
  | .block _ => false
  | .function _ _ => false
  | .test _ _ _ => false
  | _ => true

namespace Traversal

variable {γ : Type} {setup : Setup} {depth : Nat} {view : Machine → γ}
  {P : (α : Type) → EvalM α → Course → Prop} (through : Traversal setup depth view P)
include through

theorem compositional : Compositional P where
  pure a := through.silent (.pure a)
  key depth v := through.silent (.keyOf depth v)
  bind := through.bind

/-- What comes after a silent step. -/
theorem after {α β : Type} {step : EvalM α} {f : α → EvalM β} {next : α → Course}
    (kept : Keeps view step) (then_ : ∀ a, P β (f a) (next a)) :
    P β (step >>= f) (Course.after step next) :=
  through.bind (through.silent kept) then_

/-- What comes before a silent step. -/
theorem before {α β : Type} {step : EvalM α} {f : α → EvalM β} {course : Course}
    (first : P α step course) (kept : ∀ a, Keeps view (f a)) : P β (step >>= f) course :=
  through.compositional.before first fun a => through.silent (kept a)

theorem evaluate (e : Expr) : P Value (evaluate setup depth e) (part e) :=
  through.ask .part fun _ => rfl

theorem execute (link : Link) (s : Stmt) :
    P Signal (execute setup depth s) (Course.ask link (.execute s)) :=
  through.ask link fun _ => rfl

theorem conditions (es : List Expr) :
    P Bool (allHold (ContractScript.evaluate setup depth) es) (Course.conditions setup depth es) :=
  through.compositional.allHold through.evaluate es

theorem statements (link : Link) (body : List Stmt) :
    P Signal (sequence (ContractScript.execute setup depth) body)
      (Course.statements setup depth link body) :=
  through.compositional.sequence (through.execute link) body

/-- An expression that makes no list and no map. -/
theorem plainExpression [Unbound view] {e : Expr} (plain : e.isMaker = false) :
    P Value (ContractScript.evaluate setup (depth + 1) e) (e.course setup depth) := by
  have value := through.evaluate
  have along := through.compositional
  cases e with
  | literal value => exact through.silent (.pure _)
  | «variable» name => exact through.silent (.lookup name)
  | qualified spaces name => exact through.silent (.lookupQualified spaces name)
  | group inner =>
    -- the course is that of a sequence, so a step that does nothing is put behind the value
    have whole := through.bind (value inner) fun v => through.silent (.pure v)
    rw [bind_pure] at whole
    exact whole
  | assign name e =>
    exact through.bind (value e) fun v =>
      through.silent (.bind (.assign name v) fun _ => .pure _)
  | unary op place operand =>
    exact through.bind (value operand) fun v => through.silent (.unaryOp op place v)
  | binary op place left right =>
    have other : op ≠ .add := beq_eq_false_iff_ne.mp plain
    exact through.bind (value left) fun a => through.bind (value right) fun b =>
      through.silent (.binaryOp_of_ne other depth place a b)
  | logical op place left right =>
    refine through.bind (value left) fun a => ?_
    -- the right side is asked for unless the left one settles it, which depends on the operator
    cases op with
    | and =>
      cases h : a.isTruthy <;> simp only [h, LogicalOp.needsRight]
      · exact through.silent (.pure _)
      · exact value right
    | or =>
      cases h : a.isTruthy <;> simp only [h, LogicalOp.needsRight]
      · exact value right
      · exact through.silent (.pure _)
  | choice condition whenTrue whenFalse =>
    refine through.bind (value condition) fun a => ?_
    split
    · exact value whenTrue
    · exact value whenFalse
  | call callee close arguments =>
    exact through.bind (value callee) fun f => through.bind (along.values value arguments) fun vs =>
      through.ask .part fun _ => rfl
  | index collection bracket key =>
    exact through.bind (value collection) fun c => through.bind (value key) fun k =>
      through.silent (.indexValue depth bracket c k)
  | list items | map pairs | slice collection bracket first last => cases plain

theorem expression [Nameless view] (e : Expr) :
    P Value (ContractScript.evaluate setup (depth + 1) e) (e.course setup depth) := by
  have value := through.evaluate
  have along := through.compositional
  cases makes : e.isMaker with
  | false => exact through.plainExpression makes
  | true =>
    cases e with
    | list items => exact through.before (along.values value items) fun _ => .newList _
    | map pairs =>
      exact through.before (along.entries depth value pairs .empty) fun _ =>
        .bind (.newMap _) fun _ => .pure _
    | binary op place left right =>
      exact through.bind (value left) fun a => through.bind (value right) fun b =>
        through.silent (.binaryOp op depth place a b)
    | slice collection bracket first last =>
      exact through.bind (value collection) fun c => through.bind (value first) fun low =>
        through.bind (value last) fun high => through.silent (.sliceValue bracket c low high)
    | _ => cases makes

theorem statement [Unbound view] {s : Stmt} (plain : s.isPlain = true) :
    P Signal (ContractScript.execute setup (depth + 1) s) (s.course setup depth) := by
  have value := through.evaluate
  have inner := through.execute .inner
  cases s with
  | expression e => exact through.before (value e) fun _ => .pure _
  | print e =>
    exact through.before (value e) fun _ => .bind (.shown depth _) fun _ =>
      .bind (.note _) fun _ => .pure _
  | var name e =>
    cases e with
    | none => exact through.silent (.bind (.pure _) fun _ => .bind (.defineHere _ _) fun _ => .pure _)
    | some e => exact through.before (value e) fun _ => .bind (.defineHere _ _) fun _ => .pure _
  | branch condition whenTrue whenFalse =>
    refine through.bind (value condition) fun a => ?_
    cases a.isTruthy with
    | true => exact inner whenTrue
    | false =>
      cases whenFalse with
      | none => exact through.silent (.pure _)
      | some s => exact inner s
  | loop condition body =>
    -- a condition is asked for like any expression, and then only tested
    have holds : P Bool (truthOf (ContractScript.evaluate setup depth condition)) (part condition) :=
      through.before (value condition) fun _ => .pure _
    exact through.compositional.iterate (through.silent (.throw _)) holds (inner body) _
  | leave place => exact through.silent (.pure _)
  | yield place e =>
    cases e with
    | none => exact through.silent (.pure _)
    | some e => exact through.before (value e) fun _ => .pure _
  | contract kind place clauses =>
    refine through.before (through.conditions clauses.conditions) fun holds => ?_
    split
    · exact .pure _
    · cases kind with
      | assertion => exact .throw _
      | check => exact .bind (.note _) fun _ => .pure _
  | load path place space =>
    have loaded : P Unit (importModule setup depth path place space)
        (Course.ask .part (.load path place space)) := through.ask .part fun _ => rfl
    exact through.before loaded fun _ => .pure _
  | block body | function signature body | test name place body => cases plain

end Traversal

end ContractScript
