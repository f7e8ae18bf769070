/-
Code that helpers have in common.

A helper names its parameters, built-in functions and the counter of a loop. In every block of a call
these names mean what they should, and the counter takes a known course, so the code is followed with
nothing known of the scopes but this. One loop is in several helpers: it looks for a value among the items
of a list, and returns when it has found it.
-/
import ContractScript.Proofs.Run.Looping

set_option autoImplicit false

namespace ContractScript

open EvalM

namespace HelperCode

/-! ## Code in a line -/

section Code

/-- A word in a line. -/
def word (place : Place) (text : String) : Lexeme := ⟨text, place⟩

/-- A name in a line. -/
def name (place : Place) (text : String) : Expr := .variable (word place text)

/-- A whole number. -/
def whole (n : Nat) : Expr := .literal (.num (Number.ofInt n))

/-- The call of a built-in function. -/
def call (place : Place) (f : Native) (arguments : List Expr) : Expr :=
  .call (name place f.name) place arguments

/-- The length of a list. -/
def length (place : Place) (items : String) : Expr := call place .len [name place items]

/-- The item of a list at the counter. -/
def item (place : Place) (items : String) : Expr := .index (name place items) place (name place "i")

/-- How a counter goes on. -/
structure Counter where
  start : Expr
  more : Expr
  step : Expr

/-- Counting up from zero to a bound. -/
def upTo (place : Place) (bound : Expr) : Counter :=
  ⟨whole 0, .binary .less place (name place "i") bound, .binary .add place (name place "i") (whole 1)⟩

/-- A loop with a counter. -/
def Counter.loop (counter : Counter) (place : Place) (body : List Stmt) : Stmt :=
  .counting (word place "i") counter.start counter.more counter.step body

/-- Whether an item is the value that is looked for. -/
def matching (place : Place) (items value : String) : Expr :=
  .binary .equal place (item place items) (name place value)

/-- What is done with each item. -/
def inspecting (place : Place) (items value : String) : List Stmt :=
  [.branch (matching place items value) (.yield place (some (.literal (.bool true)))) none]

/-- The loop that looks for a value. -/
def search (place inside : Place) (items value : String) : Stmt :=
  (upTo place (length place items)).loop place (inspecting inside items value)

end Code

variable {setup : Setup} {depth : Nat} {place inside : Place} {m m' : Machine} {base s : Store}
  {scope loop outer inner : ScopeId} {c : Scope} {fs : List Native} {id : ListId} {x : Float} {v : Value}
  {items value : String} {P : Array (Array Value) → Prop}

/-! ## What names mean in a call -/

/-- In a state of a call names mean what they mean in the scope of the call, except for the counter, and
some built-in functions can be named. -/
structure Sees (base : Store) (c : Scope) (fs : List Native) (m : Machine) : Prop where
  adds : base.Adds m.store
  bound : ∀ name v, name ≠ "i" → c.bindings.get? name = some v → m.store.value? m.scope name = some v
  native : ∀ f ∈ fs, m.store.value? m.scope f.name = some (.native f)

/-- Around the scope of a call is one with built-in functions, and the call binds none of their names. -/
structure Called (base : Store) (scope : ScopeId) (c : Scope) (fs : List Native) : Prop where
  there : scope < base.scopes.size
  native : ∀ f ∈ fs, (base.scope scope).bindings.get? f.name = some (.native f)
  enclosing : c.enclosing = some scope
  unbound : ∀ f ∈ fs, c.bindings.get? f.name = none

theorem name_ne_counter (f : Native) : f.name ≠ "i" := by
  cases f <;> decide

namespace Called

/-- What names mean in the scope of the call. -/
theorem sees (called : Called base scope c fs) (adds : base.Adds m.store)
    (shown : m.store.Shows base.scopes.size c) (home : m.scope = base.scopes.size) : Sees base c fs m where
  adds := adds
  bound name v _ bound := by
    rw [home]
    exact shown.value?_here bound
  native f member := by
    rw [home, (shown.outward (called.unbound f member) called.enclosing called.there).1]
    refine Store.value?_here ?_
    rw [(adds.scopes scope called.there).2]
    exact called.native f member

/-- What names mean in a loop. -/
theorem sees_counting (called : Called base scope c fs) (h : Counting base "i" c P loop x s) :
    Sees base c fs { m with store := s, scope := loop } where
  adds := h.adds
  bound _ _ other bound := h.value?_around other bound
  native f member := h.value?_beyond (name_ne_counter f) (called.unbound f member) called.enclosing
    called.there (called.native f member)

/-- What names mean in the body of a loop. -/
theorem sees_within (called : Called base scope c fs)
    (h : Counting.Within base "i" c P loop outer inner x s) :
    Sees base c fs { m with store := s, scope := inner } where
  adds := h.adds
  bound name _ other bound := (h.sees name).1.trans (h.value?_around other bound)
  native f member := (h.sees f.name).1.trans
    ((called.sees_counting (m := m) h.toCounting).native f member)

/-- What names mean where a loop starts. -/
theorem sees_start (called : Called base scope c fs) (adds : base.Adds m.store)
    (shown : m.store.Shows m.scope c) (home : m.scope = base.scopes.size) :
    Sees base c fs
      { m with store := (m.store.newScope (some m.scope)).2, scope := m.store.scopes.size } := by
  rw [home] at shown
  have around : Sees base c fs { m with store := (m.store.newScope (some m.scope)).2 } :=
    called.sees (adds.newScope _) (((Store.Adds.refl _).newScope _).shows shown) home
  have inside : m.scope < m.store.scopes.size := home ▸ shown.there
  have out (name : String) : (m.store.newScope (some m.scope)).2.value? m.store.scopes.size name
      = (m.store.newScope (some m.scope)).2.value? m.scope name :=
    ((Store.shows_newScope m.store (some m.scope)).outward rfl rfl inside).1
  exact ⟨around.adds, fun name v other bound => (out name).trans (around.bound name v other bound),
    fun f member => (out f.name).trans (around.native f member)⟩

end Called

/-! ## Expressions -/

variable (setup depth place) in
theorem evaluate_length (sees : Sees base c fs m) (known : .len ∈ fs) (plain : items ≠ "i")
    (listed : c.bindings.get? items = some (.list id)) :
    evaluate setup (depth + 3) (length place items) m
      = .ok (.num (Number.ofInt (m.store.items id).size)) m := by
  have argument : evaluate setup (depth + 2) (name place items) m = .ok (.list id) m :=
    evaluate_variable setup _ (sees.bound items _ plain listed)
  exact (evaluate_call (evaluate_variable setup _ (sees.native .len known))
    (values_cons argument rfl)).trans (callValue_native rfl rfl rfl)

variable (setup depth place) in
theorem evaluate_item {j : Nat} (sees : Sees base c fs m) (plain : items ≠ "i")
    (listed : c.bindings.get? items = some (.list id))
    (i : m.store.value? m.scope "i" = some (.num (Number.ofInt j))) (there : j < (m.store.items id).size)
    (small : j < 2 ^ 53) :
    evaluate setup (depth + 2) (item place items) m = .ok ((m.store.items id).getD j .nil) m :=
  (evaluate_index (evaluate_variable setup _ (sees.bound items _ plain listed))
    (evaluate_variable setup _ i)).trans (indexValue_list there small)

/-! ## The course of a counter -/

/-- In some states a counter starts, goes on so many times, and stops. -/
structure Counter.Runs (counter : Counter) (setup : Setup) (depth : Nat) (good : Machine → Prop)
    (count : Nat → Float) (n : Nat) : Prop where
  starts : ∀ m, good m → evaluate setup (depth + 6) counter.start m = .ok (.num (count 0)) m
  goes : ∀ j ≤ n, ∀ m, good m → m.store.value? m.scope "i" = some (.num (count j)) →
    evaluate setup (depth + 6) counter.more m = .ok (.bool (decide (j < n))) m
  steps : ∀ j < n, ∀ m : Machine, m.store.value? m.scope "i" = some (.num (count j)) →
    evaluate setup (depth + 3) counter.step m = .ok (.num (count (j + 1))) m

variable (setup depth place) in
/-- Counting up to a number that bounds whole numbers as a natural number does. -/
theorem upTo_runs {good : Machine → Prop} {n : Nat} {bound : Expr} (small : n < 2 ^ 53)
    (bounds : ∀ j : Nat, j < 2 ^ 53 → (Number.ofInt j < x ↔ j < n))
    (ran : ∀ m, good m → evaluate setup (depth + 5) bound m = .ok (.num x) m) :
    (upTo place bound).Runs setup depth good (fun j => Number.ofInt j) n where
  starts _ _ := rfl
  goes j le m fine i := by
    refine (evaluate_binary (evaluate_variable setup _ i) (ran m fine)).trans ?_
    rw [← decide_eq_decide.mpr (bounds j (Nat.lt_of_le_of_lt le small))]
    rfl
  steps j less m i := by
    refine (evaluate_binary (evaluate_variable setup _ i) rfl).trans ?_
    rw [← Number.ofInt_add (Nat.lt_of_le_of_lt less small)]
    rfl

/-- So a loop with the counter counts, if the states that it comes to are such, and its body makes its
changes. -/
theorem Counter.Runs.counts {counter : Counter} {good : Machine → Prop} {count : Nat → Float} {n k : Nat}
    {body : List Stmt} {c : Nat → Scope} {P : Nat → Array (Array Value) → Prop}
    (runs : counter.Runs setup depth good count n) (le : k ≤ n)
    (fine : ∀ j, ∀ {loop s}, Counting base "i" (c j) (P j) loop (count j) s →
      good { m with store := s, scope := loop })
    (rounds : ∀ j < k, ∀ {loop outer inner s},
      Counting.Within base "i" (c j) (P j) loop outer inner (count j) s →
      ∃ s', sequence (execute setup (depth + 4)) body { m with store := s, scope := inner }
          = .ok .next { m with store := s', scope := inner } ∧
        Counting.Within base "i" (c (j + 1)) (P (j + 1)) loop outer inner (count j) s') :
    Counts setup (depth + 3) m base (word place "i") counter.more counter.step body count c P k where
  goes j less _ _ h := by
    have ran := runs.goes j (by omega) _ (fine j h) h.value?_counter
    rwa [decide_eq_true (show j < n by omega)] at ran
  steps j less := runs.steps j (by omega)
  rounds j less _ _ _ _ h := rounds j less h

/-! ## Looking for a value -/

/-- In a call a name stands for a list of items, and another one for a value that is looked for. -/
structure Seeks (base : Store) (scope : ScopeId) (c : Scope) (items value : String) (id : ListId)
    (xs : List Value) (v : Value) : Prop where
  called : Called base scope c [.len]
  listed : c.bindings.get? items = some (.list id)
  sought : c.bindings.get? value = some v
  plain : items ≠ "i" ∧ value ≠ "i"
  small : xs.length < 2 ^ 53

/-- The list has the items that it should have. -/
def Lists (id : ListId) (xs : List Value) (lists : Array (Array Value)) : Prop :=
  lists.getD id #[] = xs.toArray

/-- A comparison of the item at the counter with the value. -/
theorem evaluate_matching {j : Nat} (sees : Sees base c fs m) (plain : items ≠ "i" ∧ value ≠ "i")
    (listed : c.bindings.get? items = some (.list id)) (sought : c.bindings.get? value = some v)
    (i : m.store.value? m.scope "i" = some (.num (Number.ofInt j))) (there : j < (m.store.items id).size)
    (small : j < 2 ^ 53) :
    evaluate setup (depth + 3) (matching inside items value) m
      = BinaryOp.equal.apply (depth + 2) inside ((m.store.items id).getD j .nil) v m :=
  evaluate_binary (evaluate_item setup depth inside sees plain.1 listed i there small)
    (evaluate_variable setup _ (sees.bound value _ plain.2 sought))

namespace Seeks

variable {xs : List Value} (h : Seeks base scope c items value id xs v)
include h

variable (setup depth place) in
/-- The counter of the search goes through the positions of the list. -/
theorem runs : (upTo place (length place items)).Runs setup depth
    (fun m => Sees base c [.len] m ∧ Lists id xs m.store.lists) (fun j => Number.ofInt j) xs.length := by
  refine upTo_runs setup depth place h.small (fun j below => Number.ofInt_lt below h.small) fun m fine => ?_
  rw [evaluate_length setup (depth + 2) place fine.1 (List.mem_singleton_self _) h.plain.1 h.listed,
    show m.store.items id = xs.toArray from fine.2, List.size_toArray]

/-- In each round the item at the counter is compared. -/
theorem evaluate_inspecting {j : Nat} (there : j < xs.length)
    (reached : Counting.Within base "i" c (Lists id xs) loop outer inner (Number.ofInt j) s) :
    evaluate setup (depth + 3) (matching inside items value) { m with store := s, scope := inner }
      = BinaryOp.equal.apply (depth + 2) inside xs[j] v { m with store := s, scope := inner } := by
  have held : s.items id = xs.toArray := reached.lists
  have size : j < (s.items id).size := by
    rw [held, List.size_toArray]
    exact there
  have element : (s.items id).getD j .nil = xs[j] := by
    rw [held]
    simp [there]
  rw [evaluate_matching (h.called.sees_within reached) h.plain h.listed h.sought
    ((reached.sees "i").1.trans reached.value?_counter) size (Nat.lt_trans there h.small)]
  dsimp only
  rw [element]

/-- A round of the search changes nothing, and returns if the item is the value. -/
theorem sequence_inspecting {j : Nat} {answer : Bool} (there : j < xs.length)
    (reached : Counting.Within base "i" c (Lists id xs) loop outer inner (Number.ofInt j) s)
    (answered : s.equal? ((depth + 2) / 2 + 1) xs[j] v = some answer) :
    sequence (execute setup (depth + 4)) (inspecting inside items value)
        { m with store := s, scope := inner }
      = .ok (if answer then .yield (.bool true) else .next) { m with store := s, scope := inner } := by
  have same : EvalM.same (depth + 2) xs[j] v { m with store := s, scope := inner }
      = .ok answer { m with store := s, scope := inner } := by
    unfold EvalM.same
    rw [get_bind, answered]
    rfl
  have compared : evaluate setup (depth + 3) (matching inside items value)
      { m with store := s, scope := inner } = .ok (.bool answer) { m with store := s, scope := inner } :=
    (h.evaluate_inspecting there reached).trans (bind_ok same)
  have branched := execute_branch (s := .yield inside (some (.literal (.bool true)))) compared
  cases answer with
  | true => exact sequence_yield (branched.trans rfl)
  | false => exact (sequence_next (branched.trans rfl)).trans rfl

section Execute

variable (adds : base.Adds m.store) (shown : m.store.Shows m.scope c) (home : m.scope = base.scopes.size)
  (held : Lists id xs m.store.lists) (few : xs.length < setup.limits.rounds)
include adds shown home held few

variable (place inside) in
/-- The search finds out whether one of the items is the value. -/
theorem execute_search {found : Value → Bool}
    (settles : ∀ s', base.Extends s' → ∀ e ∈ xs, s'.equal? ((depth + 2) / 2 + 1) e v = some (found e)) :
    ∃ s', execute setup (depth + 8) (search place inside items value) m
        = .ok (if xs.any found then .yield (.bool true) else .next) { m with store := s' } ∧
      base.Adds s' := by
  have runs := h.runs setup depth place
  have fine (j : Nat) {loop : ScopeId} {s : Store} (reached : Counting base "i" c (Lists id xs) loop
      (Number.ofInt j) s) : Sees base c [.len] { m with store := s, scope := loop } ∧ Lists id xs s.lists :=
    ⟨h.called.sees_counting reached, reached.lists⟩
  have inspects {j : Nat} (there : j < xs.length) {loop outer inner : ScopeId} {s : Store}
      (reached : Counting.Within base "i" c (Lists id xs) loop outer inner (Number.ofInt j) s) :
      sequence (execute setup (depth + 4)) (inspecting inside items value)
          { m with store := s, scope := inner }
        = .ok (if found xs[j] then .yield (.bool true) else .next) { m with store := s, scope := inner } :=
    h.sequence_inspecting there reached (settles s reached.adds.extends_ _ (List.getElem_mem there))
  -- the loop goes on as long as the items are not the value, and ends with the first that is
  have le : xs.findIdx found ≤ xs.length := List.findIdx_le_length
  have counts : Counts setup (depth + 3) m base (word place "i") (upTo place (length place items)).more
      (upTo place (length place items)).step (inspecting inside items value) (fun j => Number.ofInt j)
      (fun _ => c) (fun _ => Lists id xs) (xs.findIdx found) :=
    runs.counts le fine fun j less => fun reached => by
      have ran := inspects (Nat.lt_of_lt_of_le less le) reached
      rw [List.not_of_lt_findIdx less, if_neg Bool.false_ne_true] at ran
      exact ⟨_, ran, reached⟩
  have started := runs.starts _ ⟨h.called.sees_start adds shown home, held⟩
  have fewer := Nat.lt_of_le_of_lt le few
  have goes {loop : ScopeId} {s : Store} (reached : Counting base "i" c (Lists id xs) loop
      (Number.ofInt (xs.findIdx found)) s) := runs.goes _ le _ (fine _ reached) reached.value?_counter
  cases hit : xs.any found with
  | true =>
    have there : xs.findIdx found < xs.length := List.findIdx_lt_length.mpr (List.any_eq_true.mp hit)
    rw [decide_eq_true there] at goes
    exact counts.execute_yield adds home shown held fewer started goes fun reached => by
      have ran := inspects there reached
      rw [if_pos List.findIdx_getElem] at ran
      exact ⟨_, ran, reached.adds⟩
  | false =>
    have past : ¬xs.findIdx found < xs.length := fun there =>
      Bool.false_ne_true (hit.symm.trans (List.any_eq_true.mpr (List.findIdx_lt_length.mp there)))
    rw [decide_eq_false past] at goes
    obtain ⟨s', looped, adds', -⟩ := counts.execute adds home shown held fewer started goes
    exact ⟨s', looped, adds'⟩

variable (place inside) in
/-- If there are not enough levels to compare even the first item, the search fails. -/
theorem execute_search_overflows (there : 0 < xs.length)
    (unsettled : ∀ s', base.Extends s' → s'.equal? ((depth + 2) / 2 + 1) xs[0] v = none) :
    ∃ m', execute setup (depth + 8) (search place inside items value) m
      = .error (.defect .tooDeep) m' := by
  have runs := h.runs setup depth place
  have fine (j : Nat) {loop : ScopeId} {s : Store} (reached : Counting base "i" c (Lists id xs) loop
      (Number.ofInt j) s) : Sees base c [.len] { m with store := s, scope := loop } ∧ Lists id xs s.lists :=
    ⟨h.called.sees_counting reached, reached.lists⟩
  -- the first round is where it fails, so no round is gone through before
  have counts : Counts setup (depth + 3) m base (word place "i") (upTo place (length place items)).more
      (upTo place (length place items)).step (inspecting inside items value) (fun j => Number.ofInt j)
      (fun _ => c) (fun _ => Lists id xs) 0 :=
    runs.counts (Nat.zero_le _) fine fun j less => absurd less (Nat.not_lt_zero j)
  have started := runs.starts _ ⟨h.called.sees_start adds shown home, held⟩
  have goes {loop : ScopeId} {s : Store} (reached : Counting base "i" c (Lists id xs) loop
      (Number.ofInt (0 : Nat)) s) := runs.goes _ (Nat.zero_le _) _ (fine _ reached) reached.value?_counter
  rw [decide_eq_true there] at goes
  refine counts.execute_error adds home shown held (Nat.zero_lt_of_lt few) started goes
    fun {loop outer inner s} reached => ?_
  have failed : EvalM.same (depth + 2) xs[0] v { m with store := s, scope := inner }
      = .error (.defect .tooDeep) { m with store := s, scope := inner } := by
    unfold EvalM.same
    rw [get_bind, unsettled s reached.adds.extends_]
    rfl
  have compared : evaluate setup (depth + 3) (matching inside items value)
      { m with store := s, scope := inner }
      = .error (.defect .tooDeep) { m with store := s, scope := inner } :=
    (h.evaluate_inspecting there reached).trans (bind_error failed)
  exact ⟨_, sequence_error (execute_branch_error compared)⟩

end Execute

end Seeks

end HelperCode

end ContractScript
