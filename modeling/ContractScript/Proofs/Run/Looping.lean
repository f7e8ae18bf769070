/-
Loops that count.

A loop with a counter is read as a block that declares the counter, around a loop whose body is a block
around the body that was written, followed by the step. So a round makes two scopes, and the counter is
bound in a scope of its own, between the code around the loop and the body. What the loop is about is
said by its counter, by the scope around it and by the lists, after each number of rounds. One round is
the body, which may change that scope and the lists, and the step, which changes the counter; the rounds
of a loop are put together here, once for all such loops.
-/
import ContractScript.Proofs.Run.Stepping

set_option autoImplicit false

namespace ContractScript

open EvalM

/-- A round of a loop with a counter, as it is read: the body and the step. -/
def Stmt.round (i : Lexeme) (step : Expr) (body : List Stmt) : Stmt :=
  .block [.block body, .expression (.assign i step)]

/-- A loop with a counter, as it is read. -/
def Stmt.counting (i : Lexeme) (start more step : Expr) (body : List Stmt) : Stmt :=
  .block [.var i (some start), .loop more (.round i step body)]

/-! ## Where a loop has got to -/

/-- A state of a loop: what the counter is, what is bound in the scope around the loop, and what is true
of lists. The scope around the loop is the first that a store did not have, and otherwise nothing of
that store has changed. -/
structure Counting (base : Store) (i : String) (c : Scope) (P : Array (Array Value) → Prop)
    (loop : ScopeId) (x : Float) (s : Store) : Prop where
  adds : base.Adds s
  around : s.Shows base.scopes.size c
  counter : s.Shows loop ⟨OrderedMap.empty.insert i (.num x), .empty, some base.scopes.size⟩
  later : base.scopes.size < loop
  lists : P s.lists

/-- A state of a loop in the body, which stands in two blocks. -/
structure Counting.Within (base : Store) (i : String) (c : Scope) (P : Array (Array Value) → Prop)
    (loop outer inner : ScopeId) (x : Float) (s : Store) : Prop extends Counting base i c P loop x s where
  outside : s.Shows outer ⟨.empty, .empty, some loop⟩
  inside : s.Shows inner ⟨.empty, .empty, some outer⟩
  order : loop < outer ∧ outer < inner

namespace Counting

variable {base s : Store} {i name : String} {c c' : Scope} {P Q : Array (Array Value) → Prop}
  {loop outer inner scope : ScopeId} {x y : Float} {v : Value}

theorem newScope (h : Counting base i c P loop x s) (enclosing : Option ScopeId) :
    Counting base i c P loop x (s.newScope enclosing).2 := by
  have more : s.Adds (s.newScope enclosing).2 := (Store.Adds.refl s).newScope enclosing
  exact ⟨h.adds.newScope enclosing, more.shows h.around, more.shows h.counter, h.later, h.lists⟩

/-- Binding the counter again leaves it the only name. -/
theorem insert_counter (v w : Value) :
    (OrderedMap.empty.insert i v).insert i w = OrderedMap.empty.insert i w := by
  have first : (OrderedMap.empty.insert i v).latest = [(i, v)] := by
    rw [OrderedMap.latest_insert]
    exact if_neg Bool.false_ne_true
  have single : (OrderedMap.empty.insert i w).latest = [(i, w)] := by
    rw [OrderedMap.latest_insert]
    exact if_neg Bool.false_ne_true
  have bound : (OrderedMap.empty.insert i v).contains i = true := by
    unfold OrderedMap.contains
    rw [OrderedMap.get?_insert, if_pos (beq_self_eq_true i)]
    rfl
  have same : ((OrderedMap.empty.insert i v).insert i w).latest = (OrderedMap.empty.insert i w).latest := by
    rw [OrderedMap.latest_insert, if_pos bound, first, single, OrderedMap.replace,
      if_pos (beq_self_eq_true i)]
  generalize (OrderedMap.empty.insert i v).insert i w = twice at same
  generalize OrderedMap.empty.insert i w = once at same
  cases twice
  cases once
  cases same
  rfl

theorem get?_counter (v : Value) : (OrderedMap.empty.insert i v).get? i = some v := by
  rw [OrderedMap.get?_insert, if_pos (beq_self_eq_true i)]

theorem value?_counter (h : Counting base i c P loop x s) : s.value? loop i = some (.num x) :=
  h.counter.value?_here (get?_counter _)

theorem owner?_counter (h : Counting base i c P loop x s) : s.owner? loop i = some loop := by
  refine h.counter.owner?_here ?_
  unfold OrderedMap.contains
  rw [get?_counter]
  rfl

/-- Names other than the counter are looked up around the loop. -/
theorem outward (h : Counting base i c P loop x s) (other : name ≠ i) :
    s.value? loop name = s.value? base.scopes.size name ∧
      s.owner? loop name = s.owner? base.scopes.size name := by
  refine h.counter.outward ?_ rfl h.later
  show (OrderedMap.empty.insert i (Value.num x)).get? name = none
  rw [OrderedMap.get?_insert, if_neg (by simpa using other)]
  rfl

/-- A name that is bound around the loop. -/
theorem value?_around (h : Counting base i c P loop x s) (other : name ≠ i)
    (bound : c.bindings.get? name = some v) : s.value? loop name = some v :=
  (h.outward other).1.trans (h.around.value?_here bound)

theorem owner?_around (h : Counting base i c P loop x s) (other : name ≠ i)
    (bound : c.bindings.contains name = true) : s.owner? loop name = some base.scopes.size :=
  (h.outward other).2.trans (h.around.owner?_here bound)

/-- A name that is not bound around the loop but in the scope around that, which was there before. -/
theorem value?_beyond (h : Counting base i c P loop x s) (other : name ≠ i)
    (unbound : c.bindings.get? name = none) (enclosing : c.enclosing = some scope)
    (there : scope < base.scopes.size) (bound : (base.scope scope).bindings.get? name = some v) :
    s.value? loop name = some v := by
  refine (h.outward other).1.trans ((h.around.outward unbound enclosing there).1.trans ?_)
  refine Store.value?_here ?_
  rw [(h.adds.scopes scope there).2]
  exact bound

/-- The step of the counter. -/
theorem define (h : Counting base i c P loop x s) (y : Float) :
    Counting base i c P loop y (s.define loop i (.num y)) := by
  refine ⟨h.adds.define (Nat.le_of_lt h.later) _ _, h.around.define_of_ne (Nat.ne_of_lt h.later) _ _, ?_,
    h.later, h.lists⟩
  have counter := h.counter.define i (.num y)
  dsimp only at counter
  rw [insert_counter] at counter
  exact counter

namespace Within

/-- In the body names are looked up as in the loop. -/
theorem sees (h : Within base i c P loop outer inner x s) (name : String) :
    s.value? inner name = s.value? loop name ∧ s.owner? inner name = s.owner? loop name := by
  have first : s.value? inner name = s.value? outer name ∧ s.owner? inner name = s.owner? outer name :=
    h.inside.outward rfl rfl h.order.2
  have second : s.value? outer name = s.value? loop name ∧ s.owner? outer name = s.owner? loop name :=
    h.outside.outward rfl rfl h.order.1
  exact ⟨first.1.trans second.1, first.2.trans second.2⟩

/-- The body may change lists that are new. -/
theorem withLists (h : Within base i c P loop outer inner x s) {lists : Array (Array Value)}
    (kept : ∀ id, id < base.lists.size → id < lists.size ∧ lists.getD id #[] = base.items id)
    (holds : Q lists) : Within base i c Q loop outer inner x { s with lists := lists } :=
  { adds := ⟨⟨kept, h.adds.extends_.maps⟩, h.adds.functions, h.adds.scopes⟩
    around := ⟨h.around.there, h.around.content⟩
    counter := ⟨h.counter.there, h.counter.content⟩
    later := h.later
    lists := holds
    outside := ⟨h.outside.there, h.outside.content⟩
    inside := ⟨h.inside.there, h.inside.content⟩
    order := h.order }

/-- The body may change what a name around the loop means. -/
theorem assign (h : Within base i c P loop outer inner x s) (name : String) (v : Value) :
    Within base i { c with bindings := c.bindings.insert name v } P loop outer inner x
      (s.define base.scopes.size name v) where
  adds := h.adds.define (Nat.le_refl _) name v
  around := h.around.define name v
  counter := h.counter.define_of_ne (Nat.ne_of_gt h.later) name v
  later := h.later
  lists := h.lists
  outside := h.outside.define_of_ne (Nat.ne_of_gt (Nat.lt_trans h.later h.order.1)) name v
  inside := h.inside.define_of_ne (Nat.ne_of_gt (Nat.lt_trans h.later (Nat.lt_trans h.order.1 h.order.2)))
    name v
  order := h.order

end Within

/-! ## One round -/

section Round

variable {setup : Setup} {depth : Nat} {m : Machine} {k : Lexeme} {step : Expr} {body : List Stmt}

/-- The blocks in which the body of a round runs. -/
theorem within (h : Counting base i c P loop x s) :
    Within base i c P loop s.scopes.size ((s.newScope (some loop)).2.scopes.size) x
      ((s.newScope (some loop)).2.newScope (some s.scopes.size)).2 where
  toCounting := (h.newScope _).newScope _
  outside := ((Store.Adds.refl _).newScope _).shows (Store.shows_newScope s (some loop))
  inside := Store.shows_newScope _ _
  order := ⟨h.counter.there, (Store.shows_newScope s (some loop)).there⟩

/-- A round runs the body and then the step. -/
theorem execute_round (h : Counting base k.text c P loop x s)
    (stepped : ∀ m' : Machine, m'.store.value? m'.scope k.text = some (.num x) →
      evaluate setup depth step m' = .ok (.num y) m')
    (ran : ∀ {outer inner s}, Within base k.text c P loop outer inner x s →
      ∃ s', sequence (execute setup (depth + 1)) body { m with store := s, scope := inner }
          = .ok .next { m with store := s', scope := inner } ∧
        Within base k.text c' Q loop outer inner x s') :
    ∃ s', execute setup (depth + 3) (.round k step body) { m with store := s, scope := loop }
        = .ok .next { m with store := s', scope := loop } ∧
      Counting base k.text c' Q loop y s' := by
  obtain ⟨s', goes, there⟩ := ran h.within
  let block : Machine := { m with store := (s.newScope (some loop)).2, scope := s.scopes.size }
  have inner : execute setup (depth + 2) (.block body) block = .ok .next { block with store := s' } :=
    execute_block (m := block) goes
  -- the step is made in the outer one of the two blocks
  have out : s'.value? s.scopes.size k.text = s'.value? loop k.text ∧
      s'.owner? s.scopes.size k.text = s'.owner? loop k.text :=
    there.outside.outward rfl rfl there.order.1
  have owned : s'.owner? s.scopes.size k.text = some loop := out.2.trans there.owner?_counter
  have counted := stepped { block with store := s' } (out.1.trans there.value?_counter)
  have advanced : execute setup (depth + 2) (.expression (.assign k step)) { block with store := s' }
      = .ok .next { block with store := s'.define loop k.text (.num y) } :=
    execute_expression (evaluate_assign counted owned)
  have ended : sequence (execute setup (depth + 2)) [.block body, .expression (.assign k step)] block
      = .ok .next { block with store := s'.define loop k.text (.num y) } :=
    (sequence_next inner).trans (sequence_next advanced)
  have round := execute_block (m := { m with store := s, scope := loop }) ended
  exact ⟨_, round, there.define y⟩

variable (step) in
/-- A round whose body returns ends with the body. -/
theorem execute_round_yield (h : Counting base k.text c P loop x s)
    (ran : ∀ {outer inner s}, Within base k.text c P loop outer inner x s →
      ∃ s', sequence (execute setup (depth + 1)) body { m with store := s, scope := inner }
          = .ok (.yield v) { m with store := s', scope := inner } ∧ base.Adds s') :
    ∃ s', execute setup (depth + 3) (.round k step body) { m with store := s, scope := loop }
        = .ok (.yield v) { m with store := s', scope := loop } ∧ base.Adds s' := by
  obtain ⟨s', goes, adds⟩ := ran h.within
  let block : Machine := { m with store := (s.newScope (some loop)).2, scope := s.scopes.size }
  have inner : execute setup (depth + 2) (.block body) block
      = .ok (.yield v) { block with store := s' } := execute_block (m := block) goes
  exact ⟨s', execute_block (m := { m with store := s, scope := loop }) (sequence_yield inner), adds⟩

variable (step) in
/-- A round whose body fails ends there. -/
theorem execute_round_error {e : Failure} (h : Counting base k.text c P loop x s)
    (failed : ∀ {outer inner s}, Within base k.text c P loop outer inner x s →
      ∃ m', sequence (execute setup (depth + 1)) body { m with store := s, scope := inner } = .error e m') :
    ∃ m', execute setup (depth + 3) (.round k step body) { m with store := s, scope := loop }
      = .error e m' := by
  obtain ⟨m', stops⟩ := failed h.within
  let block : Machine := { m with store := (s.newScope (some loop)).2, scope := s.scopes.size }
  have inner : execute setup (depth + 2) (.block body) block = .error e { m' with scope := block.scope } :=
    execute_block_error (m := block) stops
  exact ⟨_, execute_block_error (m := { m with store := s, scope := loop }) (sequence_error inner)⟩

end Round

end Counting

/-! ## All rounds -/

/-- The code of a loop takes it from each number of rounds to the next, up to some number: the condition
holds, the body makes its changes, and the step counts. -/
structure Counts (setup : Setup) (depth : Nat) (m : Machine) (base : Store) (i : Lexeme)
    (more step : Expr) (body : List Stmt) (count : Nat → Float) (c : Nat → Scope)
    (P : Nat → Array (Array Value) → Prop) (n : Nat) : Prop where
  goes : ∀ j < n, ∀ {loop s}, Counting base i.text (c j) (P j) loop (count j) s →
    evaluate setup (depth + 3) more { m with store := s, scope := loop }
      = .ok (.bool true) { m with store := s, scope := loop }
  steps : ∀ j < n, ∀ m' : Machine, m'.store.value? m'.scope i.text = some (.num (count j)) →
    evaluate setup depth step m' = .ok (.num (count (j + 1))) m'
  rounds : ∀ j < n, ∀ {loop outer inner s},
    Counting.Within base i.text (c j) (P j) loop outer inner (count j) s →
    ∃ s', sequence (execute setup (depth + 1)) body { m with store := s, scope := inner }
        = .ok .next { m with store := s', scope := inner } ∧
      Counting.Within base i.text (c (j + 1)) (P (j + 1)) loop outer inner (count j) s'

/-- A condition that has been evaluated. -/
theorem condition_eq {setup : Setup} {depth : Nat} {more : Expr} {b : Bool} {m m' : Machine}
    (ran : evaluate setup depth more m = .ok (.bool b) m') :
    (do return (← evaluate setup depth more).isTruthy : EvalM Bool) m = .ok b m' :=
  bind_ok ran

section All

variable {setup : Setup} {depth : Nat} {m : Machine} {base : Store} {i : Lexeme} {start more step : Expr}
  {body : List Stmt} {count : Nat → Float} {c : Nat → Scope} {P : Nat → Array (Array Value) → Prop}
  {n : Nat}

/-- So many rounds are run, whatever comes after them. -/
theorem Counts.iterate (h : Counts setup depth m base i more step body count c P n) {loop : ScopeId}
    {s : Store} (begins : Counting base i.text (c 0) (P 0) loop (count 0) s) :
    ∃ s', Counting base i.text (c n) (P n) loop (count n) s' ∧ ∀ left,
      EvalM.iterate (return (← evaluate setup (depth + 3) more).isTruthy)
          (execute setup (depth + 3) (.round i step body)) (left + n) { m with store := s, scope := loop }
        = EvalM.iterate (return (← evaluate setup (depth + 3) more).isTruthy)
          (execute setup (depth + 3) (.round i step body)) left { m with store := s', scope := loop } := by
  induction n with
  | zero => exact ⟨s, begins, fun _ => rfl⟩
  | succ n ih =>
    have fewer : Counts setup depth m base i more step body count c P n :=
      ⟨fun j less => h.goes j (Nat.lt_succ_of_lt less), fun j less => h.steps j (Nat.lt_succ_of_lt less),
        fun j less => h.rounds j (Nat.lt_succ_of_lt less)⟩
    obtain ⟨s₁, reached, before⟩ := ih fewer
    obtain ⟨s', ran, there⟩ :=
      reached.execute_round (h.steps n (Nat.lt_succ_self n)) (h.rounds n (Nat.lt_succ_self n))
    refine ⟨s', there, fun left => ?_⟩
    rw [show left + (n + 1) = left + 1 + n by omega, before]
    exact iterate_next (condition_eq (h.goes n (Nat.lt_succ_self n) reached)) ran

/-- The scope of the counter is made, and the counter starts. -/
theorem Counting.begins (adds : base.Adds m.store) (home : m.scope = base.scopes.size)
    (around : m.store.Shows m.scope (c 0)) (lists : P 0 m.store.lists) (x : Float) :
    Counting base i.text (c 0) (P 0) m.store.scopes.size x
      ((m.store.newScope (some m.scope)).2.define m.store.scopes.size i.text (.num x)) := by
  have there := around.there
  rw [home] at around there
  refine ⟨(adds.newScope _).define (Nat.le_of_lt there) _ _, ?_, ?_, there, lists⟩
  · exact (((Store.Adds.refl _).newScope _).shows around).define_of_ne (Nat.ne_of_lt there) _ _
  · rw [← home]
    exact (Store.shows_newScope m.store (some m.scope)).define i.text (.num x)

/-- A loop is its rounds, with the counter in a scope of its own. -/
theorem execute_counting {signal : Signal} {s' : Store}
    (started : evaluate setup (depth + 3) start
        { m with store := (m.store.newScope (some m.scope)).2, scope := m.store.scopes.size }
      = .ok (.num (count 0))
        { m with store := (m.store.newScope (some m.scope)).2, scope := m.store.scopes.size })
    (goesOn : signal ≠ .leave)
    (ran : EvalM.iterate (return (← evaluate setup (depth + 3) more).isTruthy)
        (execute setup (depth + 3) (.round i step body)) setup.limits.rounds
        { m with
          store := (m.store.newScope (some m.scope)).2.define m.store.scopes.size i.text (.num (count 0))
          scope := m.store.scopes.size }
      = .ok signal { m with store := s', scope := m.store.scopes.size }) :
    execute setup (depth + 5) (.counting i start more step body) m = .ok signal { m with store := s' } := by
  have declared : execute setup (depth + 4) (.var i (some start))
      { m with store := (m.store.newScope (some m.scope)).2, scope := m.store.scopes.size } = _ :=
    execute_var started
  have looped : execute setup (depth + 4) (.loop more (.round i step body)) _ = _ :=
    execute_loop.trans ran
  -- the counter is declared in the block, and the block ends as the loop does
  have ended : sequence (execute setup (depth + 4)) [.var i (some start), .loop more (.round i step body)]
      { m with store := (m.store.newScope (some m.scope)).2, scope := m.store.scopes.size }
      = .ok signal { m with store := s', scope := m.store.scopes.size } := by
    cases signal with
    | next => exact (sequence_next declared).trans (sequence_next looped)
    | yield v => exact (sequence_next declared).trans (sequence_yield looped)
    | leave => exact absurd rfl goesOn
  exact execute_block ended

section Ends

variable (h : Counts setup depth m base i more step body count c P n)
  (adds : base.Adds m.store) (home : m.scope = base.scopes.size) (around : m.store.Shows m.scope (c 0))
  (lists : P 0 m.store.lists) (enough : n < setup.limits.rounds)
  (started : evaluate setup (depth + 3) start
      { m with store := (m.store.newScope (some m.scope)).2, scope := m.store.scopes.size }
    = .ok (.num (count 0))
      { m with store := (m.store.newScope (some m.scope)).2, scope := m.store.scopes.size })
include h adds home around lists enough started

/-- A loop ends when its condition no longer holds. -/
theorem Counts.execute (stops : ∀ {loop s}, Counting base i.text (c n) (P n) loop (count n) s →
      evaluate setup (depth + 3) more { m with store := s, scope := loop }
        = .ok (.bool false) { m with store := s, scope := loop }) :
    ∃ s', ContractScript.execute setup (depth + 5) (.counting i start more step body) m
        = .ok .next { m with store := s' } ∧
      base.Adds s' ∧ s'.Shows base.scopes.size (c n) ∧ P n s'.lists := by
  obtain ⟨left, rounds⟩ : ∃ left, setup.limits.rounds = left + 1 + n :=
    ⟨setup.limits.rounds - (n + 1), by omega⟩
  obtain ⟨s', there, ran⟩ := h.iterate (Counting.begins adds home around lists (count 0))
  refine ⟨s', execute_counting started Signal.noConfusion ?_, there.adds, there.around, there.lists⟩
  rw [rounds, ran]
  exact iterate_stops (condition_eq (stops there))

/-- A loop ends when its body returns. -/
theorem Counts.execute_yield {v : Value}
    (goes : ∀ {loop s}, Counting base i.text (c n) (P n) loop (count n) s →
      evaluate setup (depth + 3) more { m with store := s, scope := loop }
        = .ok (.bool true) { m with store := s, scope := loop })
    (yields : ∀ {loop outer inner s},
      Counting.Within base i.text (c n) (P n) loop outer inner (count n) s →
      ∃ s', sequence (ContractScript.execute setup (depth + 1)) body { m with store := s, scope := inner }
          = .ok (.yield v) { m with store := s', scope := inner } ∧ base.Adds s') :
    ∃ s', ContractScript.execute setup (depth + 5) (.counting i start more step body) m
        = .ok (.yield v) { m with store := s' } ∧ base.Adds s' := by
  obtain ⟨left, rounds⟩ : ∃ left, setup.limits.rounds = left + 1 + n :=
    ⟨setup.limits.rounds - (n + 1), by omega⟩
  obtain ⟨s₁, there, before⟩ := h.iterate (Counting.begins adds home around lists (count 0))
  obtain ⟨s', ran, adds'⟩ := there.execute_round_yield step yields
  refine ⟨s', execute_counting started Signal.noConfusion ?_, adds'⟩
  rw [rounds, before]
  exact iterate_yield (condition_eq (goes there)) ran

/-- A loop ends when its body fails. -/
theorem Counts.execute_error {e : Failure}
    (goes : ∀ {loop s}, Counting base i.text (c n) (P n) loop (count n) s →
      evaluate setup (depth + 3) more { m with store := s, scope := loop }
        = .ok (.bool true) { m with store := s, scope := loop })
    (failed : ∀ {loop outer inner s},
      Counting.Within base i.text (c n) (P n) loop outer inner (count n) s →
      ∃ m', sequence (ContractScript.execute setup (depth + 1)) body { m with store := s, scope := inner }
        = .error e m') :
    ∃ m', ContractScript.execute setup (depth + 5) (.counting i start more step body) m = .error e m' := by
  obtain ⟨left, rounds⟩ : ∃ left, setup.limits.rounds = left + 1 + n :=
    ⟨setup.limits.rounds - (n + 1), by omega⟩
  obtain ⟨s₁, there, before⟩ := h.iterate (Counting.begins adds home around lists (count 0))
  obtain ⟨m', stops⟩ := there.execute_round_error step failed
  have declared : ContractScript.execute setup (depth + 4) (.var i (some start))
      { m with store := (m.store.newScope (some m.scope)).2, scope := m.store.scopes.size } = _ :=
    execute_var started
  have looped : ContractScript.execute setup (depth + 4) (.loop more (.round i step body))
      { m with
        store := (m.store.newScope (some m.scope)).2.define m.store.scopes.size i.text (.num (count 0))
        scope := m.store.scopes.size } = .error e m' := by
    rw [execute_loop, rounds, before]
    exact iterate_error (condition_eq (goes there)) stops
  exact ⟨_, execute_block_error ((sequence_next declared).trans (sequence_error looped))⟩

end Ends

end All

end ContractScript
