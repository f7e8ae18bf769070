/-
Evaluation breaks no seal.

Evaluation is gone through once, with the questions that it puts: if the questions that are put
in sound states keep the seal intact, then all questions are put in sound states and the whole
keeps the seal intact. Nothing is said about the state being one in which the sealed scope is
there already, because the same has to be known of the evaluations that were under way when it
was made.
-/
import ContractScript.Proofs.Run.Sealing

set_option autoImplicit false

namespace ContractScript

open EvalM Course

/-! ## Steps and their questions -/

/-- A question is put in a state in which its code may run. -/
def Seal.Asked (σ : Seal) (q : Question) : Prop :=
  σ.Sound (q.task.spares σ.kept = true) q.machine

/-- The answer to a question that is put in such a state keeps the seal intact. -/
def Seal.Answered (σ : Seal) (setup : Setup) (depth : Nat) (q : Question) : Prop :=
  σ.Asked q → σ.Leads q.machine (q.ended setup depth)

/-- A property of stores that is not lost when the store grows. -/
def Store.Lasting (room : Store → Prop) : Prop :=
  ∀ s s' : Store, s.Nested → s.Grown s' → room s → room s'

/-- A step that starts in a sound state puts its questions in sound states and keeps the seal
intact, if the answers do. -/
def Guards {α : Type} (σ : Seal) (setup : Setup) (depth : Nat) (room : Store → Prop) (tame : Prop)
    (step : EvalM α) (course : Course) : Prop :=
  ∀ m : Machine, room m.store → σ.Sound tame m → (∀ q ∈ course m, σ.Answered setup depth q) →
    (∀ q ∈ course m, σ.Asked q) ∧ σ.Leads m (finalState step m)

namespace Guards

variable {α β : Type} {σ : Seal} {setup : Setup} {depth : Nat} {room : Store → Prop}
  {tame tame' : Prop} {step : EvalM α} {course : Course}

/-- A step that asks for nothing. -/
theorem quiet (h : ∀ m : Machine, room m.store → σ.Sound tame m → σ.Leads m (finalState step m)) :
    Guards σ setup depth room tame step silent :=
  fun m enough sound _ => ⟨fun _ member => absurd member List.not_mem_nil, h m enough sound⟩

/-- A step that asks for nothing and changes no scope and no function. -/
theorem silent (kept : Keeps Seal.shape step) : Guards σ setup depth room tame step silent :=
  quiet fun m _ sound => sound.of_shape (kept m)

theorem bind {f : α → EvalM β} {next : α → Course} (lasting : Store.Lasting room)
    (first : Guards σ setup depth room tame step course)
    (then_ : ∀ a, Guards σ setup depth room tame (f a) (next a)) :
    Guards σ setup depth room tame (step >>= f) (course.followed step next) := by
  intro m enough sound answers
  unfold Course.followed Course.after at answers ⊢
  rw [List.forall_mem_append] at answers
  obtain ⟨asked, begun⟩ := first m enough sound answers.1
  have others := answers.2
  rw [finalState_bind, List.forall_mem_append]
  unfold finalState at begun
  cases run : step m with
  | ok a m₁ =>
    rw [run] at begun others
    obtain ⟨further, ended⟩ := then_ a m₁ (lasting _ _ sound.nested begun.grown enough)
      (sound.leads begun) others
    exact ⟨⟨asked, further⟩, begun.trans ended⟩
  | error e m₁ =>
    rw [run] at begun
    exact ⟨⟨asked, fun _ member => absurd member List.not_mem_nil⟩, begun⟩

/-- A first step that asks for nothing. -/
theorem behind {f : α → EvalM β} {next : α → Course} (lasting : Store.Lasting room)
    (first : Guards σ setup depth room tame step Course.silent)
    (then_ : ∀ a, Guards σ setup depth room tame (f a) (next a)) :
    Guards σ setup depth room tame (step >>= f) (Course.after step next) :=
  first.bind lasting then_

theorem compositional (lasting : Store.Lasting room) :
    Compositional fun _ step course => Guards σ setup depth room tame step course where
  pure a := silent (.pure a)
  key depth v := silent (.keyOf depth v)
  bind := bind lasting

/-- What follows asks for nothing. -/
theorem ending {f : α → EvalM β} (lasting : Store.Lasting room)
    (first : Guards σ setup depth room tame step course)
    (then_ : ∀ a, Guards σ setup depth room tame (f a) Course.silent) :
    Guards σ setup depth room tame (step >>= f) course :=
  (compositional lasting).before first then_

theorem before {f : α → EvalM β} (lasting : Store.Lasting room)
    (first : Guards σ setup depth room tame step course)
    (kept : ∀ a, Keeps Seal.shape (f a)) : Guards σ setup depth room tame (step >>= f) course :=
  ending lasting first fun a => silent (kept a)

/-- A silent step may come first where the room only depends on the scopes. -/
theorem after {f : α → EvalM β} {next : α → Course}
    (steady : ∀ s s' : Store, s'.scopes = s.scopes → room s → room s') (kept : Keeps Seal.shape step)
    (then_ : ∀ a, Guards σ setup depth room tame (f a) (next a)) :
    Guards σ setup depth room tame (step >>= f) (Course.after step next) := by
  intro m enough sound answers
  have same := kept m
  unfold Course.after at answers ⊢
  rw [finalState_bind]
  unfold finalState at same
  cases run : step m with
  | ok a m₁ =>
    rw [run] at same answers
    have begun := sound.of_shape same
    have scopes : m₁.store.scopes = m.store.scopes := congrArg (fun shape => shape.1.2) same
    obtain ⟨further, ended⟩ := then_ a m₁ (steady _ _ scopes enough) (sound.leads begun) answers
    exact ⟨further, begun.trans ended⟩
  | error e m₁ =>
    rw [run] at same
    exact ⟨fun _ member => absurd member List.not_mem_nil, sound.of_shape same⟩

/-- A step that goes on from the very state it looked at. -/
theorem getThen {f : Machine → EvalM α}
    (h : ∀ m : Machine, room m.store → σ.Sound tame m → (∀ q ∈ course m, σ.Answered setup depth q) →
      (∀ q ∈ course m, σ.Asked q) ∧ σ.Leads m (finalState (f m) m)) :
    Guards σ setup depth room tame ((get : EvalM Machine) >>= f) course :=
  h

/-- A step that makes a scope, and what follows where code may run in that scope. -/
theorem making {make : EvalM ScopeId} {f : ScopeId → EvalM β} {next : ScopeId → Course}
    (made : ∀ m : Machine, room m.store → σ.Sound tame m →
      ∃ id m₁, make m = .ok id m₁ ∧ σ.Leads m m₁ ∧ σ.Safe tame' m₁.store id)
    (then_ : ∀ id, Guards σ setup depth (σ.Safe tame' · id) tame (f id) (next id)) :
    Guards σ setup depth room tame (make >>= f) (Course.after make next) := by
  intro m enough sound answers
  obtain ⟨id, m₁, ran, begun, safe⟩ := made m enough sound
  unfold Course.after at answers ⊢
  rw [ran] at answers ⊢
  rw [finalState_bind, ran]
  obtain ⟨further, ended⟩ := then_ id m₁ safe (sound.leads begun) answers
  exact ⟨further, begun.trans ended⟩

theorem inScope {scope : ScopeId} (h : Guards σ setup depth (σ.Safe tame' · scope) tame' step course) :
    Guards σ setup depth (σ.Safe tame' · scope) tame (EvalM.inScope scope step)
      (course.inScope scope) := by
  intro m safe sound answers
  have entered : σ.Sound tame' { m with scope := scope } := ⟨sound.nested, sound.intact, safe⟩
  obtain ⟨asked, inside⟩ := h { m with scope := scope } safe entered answers
  refine ⟨asked, ?_⟩
  change σ.Leads m (finalState (restoring (fun m' => { m' with scope := m.scope }) step)
    { m with scope := scope })
  rw [finalState_restoring]
  exact ⟨inside.grown, inside.nested, inside.intact, rfl⟩

theorem inImport (h : Guards σ setup depth room tame step course) (name : String) :
    Guards σ setup depth room tame (EvalM.inImport name step)
      (fun m => course { m with importing := name :: m.importing }) := by
  intro m enough sound answers
  have entered : σ.Sound tame { m with importing := name :: m.importing } :=
    ⟨sound.nested, sound.intact, sound.safe⟩
  obtain ⟨asked, inside⟩ := h { m with importing := name :: m.importing } enough entered answers
  refine ⟨asked, ?_⟩
  change σ.Leads m (finalState (restoring
    (fun m' => { m' with importing := m.importing, directory := m.directory }) step)
    { m with importing := name :: m.importing })
  rw [finalState_restoring]
  exact ⟨inside.grown, inside.nested, inside.intact, inside.scope⟩

theorem catchFault (h : Guards σ setup depth room tame step course) :
    Guards σ setup depth room tame (EvalM.catchFault step) course := by
  intro m enough sound answers
  rw [finalState_catchFault]
  exact h m enough sound answers

theorem asTest (lasting : Store.Lasting room) (h : Guards σ setup depth room tame step course)
    (name : String) (line : Nat) :
    Guards σ setup depth room tame (EvalM.asTest name line step) course :=
  before lasting h.catchFault fun _ => .modify fun _ => rfl

/-- A question that stands for the step. -/
theorem ask {task : Task} (link : Link) (spared : tame → task.spares σ.kept = true)
    (same : ∀ m, finalState step m = Config.finalState setup ⟨depth, task, m⟩) :
    Guards σ setup depth room tame step (ask link task) := by
  intro m _ sound answers
  have asked : σ.Asked ⟨link, task, m⟩ := sound.weaken spared
  refine ⟨fun q member => ?_, ?_⟩
  · rw [mem_ask.mp member]
    exact asked
  · rw [same]
    exact answers _ (mem_ask.mpr rfl) asked

/-- A step in a new scope inside the current one. -/
theorem inNewScope {f : EvalM α → EvalM β} (swaps : ∀ scope, Guards σ setup depth (σ.Safe tame · scope)
      tame (f (EvalM.inScope scope step)) (course.inScope scope)) :
    Guards σ setup depth room tame
      (do
        let m ← get
        let scope ← newScope (some m.scope)
        f (EvalM.inScope scope step))
      course.inNewScope := by
  intro m _ sound answers
  have whole : Guards σ setup depth (σ.Safe tame · m.scope) tame
      (newScope (some m.scope) >>= fun scope => f (EvalM.inScope scope step))
      (Course.after (newScope (some m.scope)) fun scope => course.inScope scope) := by
    refine making (fun m' safe sound' => ?_) swaps
    exact sound'.newScope safe.1 fun rooted within => (safe.2 rooted within).2
  exact whole m sound.safe sound answers

end Guards

theorem Seal.safe_lasting (σ : Seal) (tame : Prop) (id : ScopeId) :
    Store.Lasting (σ.Safe tame · id) :=
  fun _ _ nested grown safe => safe.grown nested grown

theorem Store.lasting_true : Store.Lasting fun _ => True :=
  fun _ _ _ _ _ => trivial

/-! ## Evaluation -/

section Level

variable {σ : Seal} {setup : Setup} {depth : Nat} {room : Store → Prop} {tame : Prop}

theorem guards_evaluate (e : Expr) (spared : tame → e.spares σ.kept = true) :
    Guards σ setup depth room tame (evaluate setup depth e) (part e) :=
  .ask .part spared fun _ => rfl

theorem guards_execute (link : Link) (s : Stmt) (spared : tame → s.spares σ.kept = true) :
    Guards σ setup depth room tame (execute setup depth s) (Course.ask link (.execute s)) :=
  .ask link spared fun _ => rfl

theorem guards_conditions (lasting : Store.Lasting room) (es : List Expr)
    (spared : tame → Expr.allSpare σ.kept es = true) :
    Guards σ setup depth room tame (allHold (evaluate setup depth) es) (conditions setup depth es) :=
  (Guards.compositional lasting).allHold_of_mem fun e member =>
    guards_evaluate e fun h => Expr.allSpare_iff.mp (spared h) e member

theorem guards_values (lasting : Store.Lasting room) (es : List Expr)
    (spared : tame → Expr.allSpare σ.kept es = true) :
    Guards σ setup depth room tame (values (evaluate setup depth) es) (parts setup depth es) :=
  (Guards.compositional lasting).values_of_mem fun e member =>
    guards_evaluate e fun h => Expr.allSpare_iff.mp (spared h) e member

theorem guards_statements (lasting : Store.Lasting room) (link : Link) (body : List Stmt)
    (spared : tame → Stmt.allSpare σ.kept body = true) :
    Guards σ setup depth room tame (sequence (execute setup depth) body)
      (statements setup depth link body) :=
  (Guards.compositional lasting).sequence_of_mem fun s member =>
    guards_execute link s fun h => Stmt.allSpare_iff.mp (spared h) s member

theorem Expr.guards (e : Expr) :
    Guards σ setup depth (fun _ => True) (e.spares σ.kept = true) (evaluate setup (depth + 1) e)
      (e.course setup depth) := by
  have lasting := Store.lasting_true
  cases e with
  | literal value => exact .silent (.pure _)
  | «variable» name => exact .silent (.lookup name)
  | qualified spaces name => exact .silent (.lookupQualified spaces name)
  | group inner =>
    have whole : Guards σ setup depth (fun _ => True) (inner.spares σ.kept = true)
        (evaluate setup depth inner >>= pure) (parts setup depth [inner]) :=
      .bind lasting (guards_evaluate inner id) fun v => .silent (.pure v)
    rw [bind_pure] at whole
    exact whole
  | assign name e =>
    -- code that spares the sealed names does not assign any of them
    rw [Expr.spares, Bool.and_eq_true, Bool.not_eq_true']
    refine .bind lasting (guards_evaluate e And.right) fun v => ?_
    refine .before lasting (.quiet fun m _ sound => sound.assign name v And.left) fun _ => .pure _
  | unary op place operand =>
    exact .bind lasting (guards_evaluate operand id) fun v => .silent (.unaryOp op place v)
  | binary op place left right =>
    rw [Expr.spares, Bool.and_eq_true]
    exact .bind lasting (guards_evaluate left And.left) fun a =>
      .bind lasting (guards_evaluate right And.right) fun b => .silent (.binaryOp op depth place a b)
  | logical op place left right =>
    rw [Expr.spares, Bool.and_eq_true]
    refine .bind lasting (guards_evaluate left And.left) fun a => ?_
    cases op with
    | and =>
      cases h : a.isTruthy <;> simp only [h, LogicalOp.needsRight]
      · exact .silent (.pure _)
      · exact guards_evaluate right And.right
    | or =>
      cases h : a.isTruthy <;> simp only [h, LogicalOp.needsRight]
      · exact guards_evaluate right And.right
      · exact .silent (.pure _)
  | choice condition whenTrue whenFalse =>
    rw [Expr.spares, Bool.and_eq_true, Bool.and_eq_true]
    refine .bind lasting (guards_evaluate condition fun h => h.1.1) fun a => ?_
    split
    · exact guards_evaluate whenTrue fun h => h.1.2
    · exact guards_evaluate whenFalse fun h => h.2
  | call callee close arguments =>
    rw [Expr.spares, Bool.and_eq_true]
    exact .bind lasting (guards_evaluate callee And.left) fun f =>
      .bind lasting (guards_values lasting arguments And.right) fun vs =>
        .ask .part (fun _ => rfl) fun _ => rfl
  | list items => exact .before lasting (guards_values lasting items id) fun _ => .newList _
  | map pairs =>
    rw [Expr.spares]
    refine .before lasting ((Guards.compositional lasting).entries_of_mem depth ?_ .empty) fun _ =>
      .bind (.newMap _) fun _ => .pure _
    exact fun pair member => ⟨guards_evaluate pair.1 fun h => (Expr.pairsSpare_iff.mp h pair member).1,
      guards_evaluate pair.2 fun h => (Expr.pairsSpare_iff.mp h pair member).2⟩
  | index collection bracket key =>
    rw [Expr.spares, Bool.and_eq_true]
    exact .bind lasting (guards_evaluate collection And.left) fun c =>
      .bind lasting (guards_evaluate key And.right) fun k => .silent (.indexValue depth bracket c k)
  | slice collection bracket first last =>
    rw [Expr.spares, Bool.and_eq_true, Bool.and_eq_true]
    exact .bind lasting (guards_evaluate collection fun h => h.1.1) fun c =>
      .bind lasting (guards_evaluate first fun h => h.1.2) fun low =>
        .bind lasting (guards_evaluate last fun h => h.2) fun high =>
          .silent (.sliceValue bracket c low high)

theorem Value.guards_call (place : Place) (f : Value) (arguments : List Value) :
    Guards σ setup depth (fun _ => True) tame (callValue setup (depth + 1) place f arguments)
      (f.callCourse place arguments) := by
  rw [callValue_succ]
  refine .getThen fun m _ sound answers => ?_
  unfold Value.callCourse at answers ⊢
  cases found : m.store.callable? f with
  | none => exact ⟨fun _ member => absurd member List.not_mem_nil, sound.of_shape rfl⟩
  | some callable =>
    obtain ⟨name, arity⟩ := callable
    rw [found] at answers
    dsimp only at answers ⊢
    by_cases fits : arguments.length = arity
    · rw [if_pos fits] at answers ⊢
      rw [if_neg (by simpa using fits), finalState_inCall]
      have entered : σ.Sound tame { m with frames := ⟨name, place⟩ :: m.frames } :=
        ⟨sound.nested, sound.intact, sound.safe⟩
      have asked : Guards σ setup depth (fun _ => True) tame (invoke setup depth f arguments)
          (Course.ask (.call ⟨name, place⟩) (.invoke f arguments)) := .ask _ (fun _ => rfl) fun _ => rfl
      obtain ⟨here, inside⟩ := asked { m with frames := ⟨name, place⟩ :: m.frames } trivial entered answers
      exact ⟨here, inside.grown, inside.nested, inside.intact, inside.scope⟩
    · rw [if_neg fits, if_pos (by simpa using fits)]
      exact ⟨fun _ member => absurd member List.not_mem_nil, sound.of_shape rfl⟩

theorem Guards.define {id : ScopeId} (apart : ∀ s, room s → s.Rooted σ.scope → id ≠ σ.scope)
    (name : String) (v : Value) :
    Guards σ setup depth room tame (EvalM.define id name v) Course.silent :=
  .quiet fun m enough sound => sound.define (apart m.store enough)

theorem Guards.bindArguments (lasting : Store.Lasting room) {id : ScopeId}
    (apart : ∀ s, room s → s.Rooted σ.scope → id ≠ σ.scope) (parameters : List Lexeme) :
    ∀ arguments : List Value,
      Guards σ setup depth room tame (EvalM.bind id parameters arguments) Course.silent := by
  induction parameters with
  | nil => exact fun _ => .silent (.pure _)
  | cons p rest ih =>
    intro arguments
    cases arguments with
    | nil => exact .silent (.pure _)
    | cons v vs => exact .bind lasting (.define apart _ _) fun _ => ih vs

/-- A call of a function runs its code in a scope inside the one where it was declared. -/
theorem Closure.guards {id : FunctionId} (c : Closure) (arguments : List Value) :
    Guards σ setup depth (fun s => s.closure? id = some c) True
      (do
        let scope ← newScope (some c.scope)
        EvalM.bind scope c.signature.parameters arguments
        let before ← inScope scope (allHold (evaluate setup depth) c.signature.before.conditions)
        if !before then failHere (.precondition c.signature.before.message)
        let signal ← inScope scope (sequence (execute setup depth) c.body)
        let result := match signal with
          | .yield v => v
          | _ => .nil
        define scope "result" result
        let after ← inScope scope (allHold (evaluate setup depth) c.signature.after.conditions)
        if !after then failHere (.postcondition c.signature.after.message)
        return result)
      (c.course setup depth arguments) := by
  -- the scope of the call is inside the sealed one only if the code spares the sealed names
  have made : ∀ m : Machine, m.store.closure? id = some c → σ.Sound True m →
      ∃ scope m₁, newScope (some c.scope) m = .ok scope m₁ ∧ σ.Leads m m₁ ∧
        σ.Safe (c.spares σ.kept = true) m₁.store scope := by
    intro m found sound
    have there := sound.nested.closure id c found
    exact sound.newScope there fun rooted within => (sound.intact rooted).closures id c found within
  refine .making made fun scope => ?_
  have lasting := σ.safe_lasting (c.spares σ.kept = true) scope
  have apart (s : Store) (safe : σ.Safe (c.spares σ.kept = true) s scope) :
      s.Rooted σ.scope → scope ≠ σ.scope := safe.ne
  have spared (h : c.spares σ.kept = true) : (Expr.allSpare σ.kept c.signature.before.conditions = true ∧
      Expr.allSpare σ.kept c.signature.after.conditions = true) ∧
      Stmt.allSpare σ.kept c.body = true := by
    unfold Closure.spares Signature.spares at h
    rw [Bool.and_eq_true, Bool.and_eq_true] at h
    exact h
  refine .behind lasting (.bindArguments lasting apart _ _) fun _ => ?_
  refine .bind lasting (.inScope (guards_conditions lasting _ fun h => (spared h).1.1)) fun before => ?_
  cases before with
  | false => exact .silent fun _ => rfl
  | true =>
    refine .bind lasting (.inScope (guards_statements lasting .body _ fun h => (spared h).2)) fun signal => ?_
    refine .behind lasting (.define apart "result" signal.result) fun _ => ?_
    refine .before lasting (.inScope (guards_conditions lasting _ fun h => (spared h).1.2)) fun after => ?_
    exact .orFail (.pure _)

theorem Value.guards_invoke (f : Value) (arguments : List Value) :
    Guards σ setup depth (fun _ => True) True (invoke setup (depth + 1) f arguments)
      (f.invokeCourse setup depth arguments) := by
  cases f with
  | native g => exact .silent (.native setup depth g arguments)
  | function id =>
    refine .getThen fun m _ sound answers => ?_
    unfold Value.invokeCourse at answers ⊢
    dsimp only at answers ⊢
    cases found : m.store.closure? id with
    | none => exact ⟨fun _ member => absurd member List.not_mem_nil, sound.of_shape rfl⟩
    | some c =>
      rw [found] at answers
      exact c.guards arguments m found sound answers
  | _ => exact .silent (.pure _)

/-- A function is declared in a scope that is not the sealed one, with the code of its
declaration. -/
theorem guards_function (signature : Signature) (body : List Stmt) :
    Guards σ setup depth room ((Stmt.function signature body).spares σ.kept = true)
      (execute setup (depth + 1) (.function signature body)) Course.silent := by
  refine .quiet fun m _ sound => ?_
  have made := sound.newFunction ⟨signature, body, m.scope⟩ rfl id
  refine made.trans ?_
  have sound' := sound.leads made
  exact sound'.define sound'.safe.ne

theorem Stmt.guards (s : Stmt) :
    Guards σ setup depth (fun _ => True) (s.spares σ.kept = true) (execute setup (depth + 1) s)
      (s.course setup depth) := by
  have lasting := Store.lasting_true
  cases s with
  | expression e => exact .before lasting (guards_evaluate e id) fun _ => .pure _
  | print e =>
    exact .before lasting (guards_evaluate e id) fun _ => .bind (.shown depth _) fun _ =>
      .bind (.note _) fun _ => .pure _
  | var name e =>
    -- what is declared is bound in the current scope, and the sealed one is never the current
    have bound (tame : Prop) (v : Value) : Guards σ setup depth (fun _ => True) tame
        (defineHere name.text v) Course.silent :=
      .quiet fun m _ sound => sound.define sound.safe.ne
    have declared (tame : Prop) (v : Value) : Guards σ setup depth (fun _ => True) tame
        (defineHere name.text v >>= fun _ => pure Signal.next) Course.silent :=
      .before lasting (bound tame v) fun _ => .pure _
    cases e with
    | none => exact .ending lasting (.silent (.pure _)) fun v => declared _ v
    | some e => exact .ending lasting (guards_evaluate e id) fun v => declared _ v
  | block body =>
    refine Guards.inNewScope (f := id) fun scope => ?_
    exact .inScope (guards_statements (σ.safe_lasting _ scope) .inner body id)
  | branch condition whenTrue whenFalse =>
    rw [Stmt.spares, Bool.and_eq_true, Bool.and_eq_true]
    refine .bind lasting (guards_evaluate condition fun h => h.1.1) fun a => ?_
    cases a.isTruthy with
    | true => exact guards_execute .inner whenTrue fun h => h.1.2
    | false =>
      cases whenFalse with
      | none => exact .silent (.pure _)
      | some s => exact guards_execute .inner s And.right
  | loop condition body =>
    rw [Stmt.spares, Bool.and_eq_true]
    exact (Guards.compositional lasting).iterate (.silent (.throw _))
      (.before lasting (guards_evaluate condition And.left) fun _ => .pure _)
      (guards_execute .inner body And.right) _
  | leave place => exact .silent (.pure _)
  | yield place e =>
    cases e with
    | none => exact .silent (.pure _)
    | some e => exact .before lasting (guards_evaluate e id) fun _ => .pure _
  | function signature body => exact guards_function signature body
  | contract kind place clauses =>
    refine .before lasting (guards_conditions lasting clauses.conditions id) fun holds => ?_
    split
    · exact .pure _
    · cases kind with
      | assertion => exact .throw _
      | check => exact .bind (.note _) fun _ => .pure _
  | load path place space =>
    exact .before lasting (.ask .part (fun h => h) fun _ => rfl) fun _ => .pure _
  | test name place body =>
    refine .behind lasting (.silent (.trace setup _)) fun _ =>
      Guards.inNewScope (f := fun step => asTest name place.line step >>= fun _ => pure Signal.next)
        fun scope => ?_
    have inside : Guards σ setup depth (σ.Safe (body.spares σ.kept = true) · scope)
        (body.spares σ.kept = true) (execute setup depth body) (Course.ask .test (.execute body)) :=
      guards_execute .test body id
    have last := σ.safe_lasting (body.spares σ.kept = true) scope
    exact (inside.inScope.asTest last name place.line).before last fun _ => .pure _

theorem guards_load (path : String) (place : Place) (space : Option Lexeme) :
    Guards σ setup depth (fun s => space.isSome = true → s.scopes.size ≠ σ.scope) False
      (importModule setup (depth + 1) path place space) (loadCourse setup depth path place space) := by
  rw [importModule_succ]
  intro m enough sound answers
  have steady : ∀ s s' : Store, s'.scopes = s.scopes →
      (space.isSome = true → s.scopes.size ≠ σ.scope) →
      space.isSome = true → s'.scopes.size ≠ σ.scope := fun _ _ same h => same ▸ h
  -- the link of the questions is about the state in which the import starts
  refine (Guards.after steady (.findModule _ _ _) fun source => .after steady (.trace _ _) fun _ =>
    .inImport (.after steady (.moduleDeclarations _ _ _) fun program =>
      .making (fun m apart sound => sound.importTarget setup space apart) fun target =>
      .behind (σ.safe_lasting False target) ?_ fun _ =>
        .before (σ.safe_lasting False target)
          (.inScope (guards_statements (σ.safe_lasting False target) _ program nofun))
          fun _ => .pure _) source.name) m enough sound answers
  cases source.directory with
  | none => exact .silent (.pure _)
  | some dir => exact .silent (.modify fun _ => rfl)

end Level

/-- Whether a task makes a scope of its own that nothing encloses. -/
def Task.makesRoot : Task → Bool
  | .load _ _ space => space.isSome
  | _ => false

/-- Every task guards a seal, unless the sealed scope is the one that it makes for itself. -/
theorem Task.guards {σ : Seal} {setup : Setup} {depth : Nat} (task : Task) {m : Machine}
    (apart : task.makesRoot = true → m.store.scopes.size ≠ σ.scope)
    (sound : σ.Sound (task.spares σ.kept = true) m)
    (answers : ∀ q ∈ task.course setup depth m, σ.Answered setup depth q) :
    (∀ q ∈ task.course setup depth m, σ.Asked q) ∧
      σ.Leads m (Config.finalState setup ⟨depth + 1, task, m⟩) := by
  cases task with
  | evaluate e => exact e.guards m trivial sound answers
  | call place f arguments => exact f.guards_call place arguments m trivial sound answers
  | invoke f arguments => exact f.guards_invoke arguments m trivial (sound.weaken fun _ => trivial) answers
  | execute s => exact s.guards m trivial sound answers
  | load path place space => exact guards_load path place space m apart (sound.weaken nofun) answers

end ContractScript
