/-
Calls of the helpers for lists.

Each call ends, with lists and scopes added and nothing else changed. A function that gathers items fills
the list that it has made, so this list holds one more of them after each round, and no other list changes.
-/
import ContractScript.Proofs.Module.ListHelpers

set_option autoImplicit false

namespace ContractScript

open EvalM HelperCode

namespace ListHelpers

variable {setup : Setup} {depth : Nat} {place : Place} {m : Machine} {base s : Store}
  {scope loop outer inner : ScopeId} {c : Scope} {id out : ListId} {x : Float} {v : Value}

/-! ## The scope of a call -/

/-- The built-in functions can be named in the module. -/
theorem get?_native (loaded : bundle.Loaded base scope) (f : Native) :
    (base.scope scope).bindings.get? f.name = some (.native f) := by
  have other : f.name ∉ functions.map fun g => g.1.name.text := by cases f <;> decide
  rw [loaded.natives f.name other]
  cases f <;> rfl

/-- The scope of a call with some parameters bound. -/
def passing (bindings : OrderedMap String Value) (scope : ScopeId) : Scope :=
  ⟨bindings, .empty, some scope⟩

theorem called_passing (loaded : bundle.Loaded base scope) {bindings : OrderedMap String Value}
    {fs : List Native} (unbound : ∀ f ∈ fs, bindings.get? f.name = none) :
    Called base scope (passing bindings scope) fs :=
  ⟨loaded.rooted.1, fun f _ => get?_native loaded f, rfl, unbound⟩

/-! ## Gathering items -/

/-- The list that is made holds so many of the items. -/
def Gathered (out : ListId) (ys : List Value) (j : Nat) (lists : Array (Array Value)) : Prop :=
  out < lists.size ∧ lists.getD out #[] = (ys.take j).toArray

/-- Appending the next item gathers it, and changes no other list. -/
theorem Gathered.push {lists : Array (Array Value)} {ys : List Value} {j : Nat}
    (gathered : Gathered out ys j lists) (inside : j < ys.length) :
    Gathered out ys (j + 1) (lists.modify out (·.push ys[j])) := by
  obtain ⟨there, items⟩ := gathered
  refine ⟨Nat.lt_of_lt_of_eq there Array.size_modify.symm, ?_⟩
  rw [Array.getD_eq_getD_getElem?] at items ⊢
  rw [Array.getElem?_eq_getElem there] at items
  rw [Array.getElem?_modify, if_pos rfl, Array.getElem?_eq_getElem there]
  show (lists[out]).push ys[j] = _
  rw [show lists[out] = _ from items, List.push_toArray, List.take_succ_eq_append_getElem inside]

/-- What the scope of a call is once the new list has been made. -/
def making (c : Scope) (out : ListId) : Scope :=
  { c with bindings := c.bindings.insert "out" (.list out) }

theorem get?_making (c : Scope) (out : ListId) :
    (making c out).bindings.get? "out" = some (.list out) := by
  show (c.bindings.insert "out" (.list out)).get? "out" = _
  rw [OrderedMap.get?_insert, if_pos (beq_self_eq_true _)]

theorem Called.making {fs : List Native} (called : Called base scope c fs) (out : ListId) :
    Called base scope (making c out) fs where
  there := called.there
  native := called.native
  enclosing := called.enclosing
  unbound f member := by
    have other : (f.name == "out") = false := by cases f <;> decide
    show (c.bindings.insert "out" (.list out)).get? f.name = none
    rw [OrderedMap.get?_insert, other, if_neg Bool.false_ne_true, called.unbound f member]

variable (place) in
/-- A value is appended to the list that is made. -/
theorem execute_append {fs : List Native} {e : Expr} (sees : Sees base c fs m) (known : .append ∈ fs)
    (made : c.bindings.get? "out" = some (.list out))
    (ran : evaluate setup (depth + 2) e m = .ok v m) :
    execute setup (depth + 4) (.expression (call place .append [name place "out", e])) m
      = .ok .next { m with store := m.store.push out v } := by
  have list : evaluate setup (depth + 2) (name place "out") m = .ok (.list out) m :=
    evaluate_variable setup _ (sees.bound "out" _ (by decide) made)
  have passed : values (evaluate setup (depth + 2)) [name place "out", e] m = .ok [.list out, v] m :=
    values_cons list (values_cons ran rfl)
  refine execute_expression (v := .list out) ?_
  exact (evaluate_call (evaluate_variable setup _ (sees.native .append known)) passed).trans
    (callValue_native rfl rfl rfl)

section Gather

variable {fs : List Native} {ys : List Value} {e : Expr} (called : Called base scope c fs)
  (known : .append ∈ fs)
include called known

variable (place) in
/-- A round of a gathering loop. -/
theorem execute_gather {j : Nat} (made : c.bindings.get? "out" = some (.list out))
    (new : base.lists.size ≤ out) (inside : j < ys.length)
    (reached : Counting.Within base "i" c (Gathered out ys j) loop outer inner x s)
    (ran : evaluate setup (depth + 2) e { m with store := s, scope := inner }
      = .ok ys[j] { m with store := s, scope := inner }) :
    ∃ s', sequence (execute setup (depth + 4)) [.expression (call place .append [name place "out", e])]
        { m with store := s, scope := inner } = .ok .next { m with store := s', scope := inner } ∧
      Counting.Within base "i" c (Gathered out ys (j + 1)) loop outer inner x s' := by
  have appended := execute_append place (called.sees_within reached) known made ran
  refine ⟨s.push out ys[j], (sequence_next appended).trans rfl,
    reached.withLists (fun id old => ?_) (reached.lists.push inside)⟩
  obtain ⟨there, same⟩ := reached.adds.extends_.lists id old
  refine ⟨Nat.lt_of_lt_of_eq there Array.size_modify.symm, Eq.trans ?_ same⟩
  have other : out ≠ id := Nat.ne_of_gt (Nat.lt_of_lt_of_le old new)
  show (s.lists.modify out _).getD id #[] = s.lists.getD id #[]
  rw [Array.getD_eq_getD_getElem?, Array.getElem?_modify, if_neg other, Array.getD_eq_getD_getElem?]

/-- The body of a gathering function returns a new list of the items that it evaluates. -/
theorem sequence_gathering (n : Nat) {counter : Counter} {count : Nat → Float} {total : Nat}
    (adds : base.Adds m.store) (shown : m.store.Shows m.scope c) (home : m.scope = base.scopes.size)
    (length : ys.length = total) (few : total < setup.limits.rounds)
    (runs : counter.Runs setup depth (Sees base (making c m.store.lists.size) fs) count total)
    (items : ∀ j (inside : j < ys.length), ∀ m', Sees base (making c m.store.lists.size) fs m' →
      m'.store.value? m'.scope "i" = some (.num (count j)) →
      evaluate setup (depth + 2) e m' = .ok ys[j] m') :
    ∃ s', sequence (execute setup (depth + 8)) (gathering n counter e) m
        = .ok (.yield (.list m.store.lists.size)) { m with store := s' } ∧
      base.Adds s' ∧ s'.items m.store.lists.size = ys.toArray := by
  subst length
  let out : ListId := m.store.lists.size
  let m₁ : Machine := { m with store := (m.store.newList #[]).2.define m.scope "out" (.list out) }
  have fresh : evaluate setup (depth + 7) (.list []) m
      = .ok (.list out) { m with store := (m.store.newList #[]).2 } := rfl
  have declared : execute setup (depth + 8) (.var (word (line n) "out") (some (.list []))) m
      = .ok .next m₁ := execute_var fresh
  -- the new list is none of those that were there when the function was called
  have new : base.lists.size ≤ out := by
    by_contra short
    exact absurd (adds.extends_.lists out (by omega)).1 (Nat.lt_irrefl _)
  have adds₁ : base.Adds m₁.store := (adds.newList _).define (Nat.le_of_eq home.symm) _ _
  have shown₁ : m₁.store.Shows m₁.scope (making c out) :=
    (((Store.Adds.refl _).newList _).shows shown).define "out" _
  have called₁ := Called.making called out
  have empty : Gathered out ys 0 m₁.store.lists :=
    ⟨Nat.lt_of_lt_of_eq (Nat.lt_succ_self _) (Array.size_push _).symm, Store.getD_push_size _ _ _⟩
  -- each round gathers one more item; what names mean is not changed by a round
  have counts : Counts setup (depth + 3) m₁ base (word (line (n + 1)) "i") counter.more counter.step
      [.expression (call (line (n + 2)) .append [name (line (n + 2)) "out", e])] count
      (fun _ => making c out) (Gathered out ys) ys.length :=
    runs.counts (Nat.le_refl _) (fun j {loop s} reached => called₁.sees_counting reached)
      fun j less => fun reached => execute_gather _ called₁ known (get?_making c out) new less reached
        (items j less _ (called₁.sees_within reached)
          ((reached.sees "i").1.trans reached.value?_counter))
  have started := runs.starts _ (called₁.sees_start adds₁ shown₁ home)
  obtain ⟨s', looped, adds', shown', -, gathered⟩ := counts.execute adds₁ home shown₁ empty few started
    -- after the last round the condition does not hold
    fun reached => by
      have ran := runs.goes ys.length (Nat.le_refl _) _ (called₁.sees_counting (m := m₁) reached)
        reached.value?_counter
      rwa [decide_eq_false (Nat.lt_irrefl _)] at ran
  have found : s'.value? m.scope "out" = some (.list out) := by
    rw [home]
    exact shown'.value?_here (get?_making c out)
  refine ⟨s', (sequence_next declared).trans ((sequence_next looped).trans
    (sequence_yield (execute_yield (evaluate_variable setup _ found)))), adds', ?_⟩
  rwa [List.take_length] at gathered

end Gather

/-! ## Counting down -/

/-- Counting down the positions of a list. -/
def downward (n j : Nat) : Float := Number.ofInt (n - j : Nat) - Number.ofInt 1

theorem downward_eq {n j : Nat} (less : j < n) (small : n < 2 ^ 53) :
    downward n j = Number.ofInt (n - (j + 1) : Nat) :=
  Number.ofInt_sub (b := 1) (Nat.sub_pos_of_lt less) (Nat.lt_of_le_of_lt (Nat.sub_le n j) small)

theorem downward_succ {n j : Nat} (less : j < n) (small : n < 2 ^ 53) :
    downward n j - Number.ofInt 1 = downward n (j + 1) :=
  congrArg (· - Number.ofInt 1) (downward_eq less small)

/-- The count stays at least zero as long as there are positions left. -/
theorem zero_le_downward {n j : Nat} (le : j ≤ n) (small : n < 2 ^ 53) :
    Number.ofInt 0 ≤ downward n j ↔ j < n := by
  rcases Nat.lt_or_eq_of_le le with less | rfl
  · rw [downward_eq less small]
    have least := (Number.ofInt_le (a := 0) (by decide) (Nat.lt_of_le_of_lt (Nat.sub_le n (j + 1)) small)).mpr
      (Nat.zero_le _)
    exact ⟨fun _ => less, fun _ => least⟩
  · unfold downward
    rw [Nat.sub_self]
    exact ⟨fun none => absurd none Number.not_le_zero_sub_one, fun less => absurd less (Nat.lt_irrefl _)⟩

section Down

variable {fs : List Native} (there : id < base.lists.size)
  (listed : c.bindings.get? "items" = some (.list id)) (small : (base.items id).size < 2 ^ 53)
include there listed small

variable (setup depth place) in
/-- Counting down from the last position of a list. -/
theorem downFrom_runs (known : .len ∈ fs) : (downFrom place).Runs setup depth (Sees base c fs)
    (downward (base.items id).size) (base.items id).size where
  starts m sees := by
    refine (evaluate_binary (evaluate_length setup (depth + 2) place sees known (by decide) listed)
      rfl).trans ?_
    rw [(sees.adds.extends_.lists id there).2]
    rfl
  goes j le m sees i := by
    refine (evaluate_binary (evaluate_variable setup _ i) rfl).trans ?_
    rw [← decide_eq_decide.mpr (zero_le_downward le small)]
    rfl
  steps j less m i := by
    refine (evaluate_binary (evaluate_variable setup _ i) rfl).trans ?_
    rw [← downward_succ less small]
    rfl

variable (place) in
/-- The item at the counter, from the end of a list. -/
theorem evaluate_item_downward {j : Nat} (sees : Sees base c fs m)
    (i : m.store.value? m.scope "i" = some (.num (downward (base.items id).size j)))
    (inside : j < (base.items id).toList.reverse.length) :
    evaluate setup (depth + 2) (item place "items") m = .ok (base.items id).toList.reverse[j] m := by
  have same : m.store.items id = base.items id := (sees.adds.extends_.lists id there).2
  have length : (base.items id).toList.reverse.length = (base.items id).size := by
    rw [List.length_reverse, Array.length_toList]
  have less : j < (base.items id).size := length ▸ inside
  have position : (base.items id).size - (j + 1) < (base.items id).size := by omega
  rw [downward_eq less small] at i
  rw [evaluate_item setup depth place sees (by decide) listed i (same.symm ▸ position) (by omega), same]
  simp [position, show (base.items id).size - 1 - j = (base.items id).size - (j + 1) by omega]

end Down

/-! ## Calls -/

/-- A call ends with a value, and has added to the store: nothing that was there has changed, and nothing
has happened outside. -/
structure Returns (call : EvalM Value) (m : Machine) (v : Value) (s' : Store) : Prop where
  ends : call m = .ok v { m with store := s' }
  adds : m.store.Adds s'

section Calls

variable {f : FunctionId}

variable (setup depth place) in
/-- Reversing a list makes a new one, with the items in reverse order. -/
theorem callValue_reverse (loaded : bundle.Loaded m.store scope)
    (declared : m.store.closure? f = some ⟨reverseFunction.1, reverseFunction.2, scope⟩)
    (there : id < m.store.lists.size) (small : (m.store.items id).size < 2 ^ 53)
    (few : (m.store.items id).size < setup.limits.rounds) :
    ∃ s', Returns (callValue setup (depth + 10) place (.function f) [.list id]) m
        (.list m.store.lists.size) s' ∧
      s'.items m.store.lists.size = (m.store.items id).reverse := by
  let m₀ : Machine := m.entered place ⟨reverseFunction.1, reverseFunction.2, scope⟩ [.list id]
  let c : Scope := passing (OrderedMap.empty.insert "items" (.list id)) scope
  have called : Called m.store scope c [.len, .append] :=
    called_passing loaded fun f _ => by cases f <;> rfl
  have shown : m₀.store.Shows m₀.scope c :=
    (Store.shows_newScope m.store (some scope)).define "items" (.list id)
  have listed : (making c m₀.store.lists.size).bindings.get? "items" = some (.list id) := rfl
  have length : (m.store.items id).toList.reverse.length = (m.store.items id).size := by
    rw [List.length_reverse, Array.length_toList]
  obtain ⟨s', ran, adds, made⟩ := sequence_gathering called (by decide) 25 (m.adds_entered _ _ _) shown rfl
    length few (downFrom_runs setup depth (line 26) there listed small (by decide))
    fun j inside m' sees i => evaluate_item_downward (line 27) there listed small sees i inside
  refine ⟨_, ⟨callValue_of_body declared rfl rfl rfl ran, adds.define (Nat.le_refl _) _ _⟩, made.trans ?_⟩
  rw [← Array.toList_reverse]

/-- The condition of the function that gathers numbers. -/
theorem allHold_nonnegative (n : m.store.value? m.scope "n" = some (.num x)) :
    allHold (evaluate setup (depth + 2)) rangeFunction.1.before.conditions m
      = .ok (decide (Number.ofInt 0 ≤ x)) m := by
  have compared : evaluate setup (depth + 2)
      (.binary .greaterEqual (line 15) (name (line 15) "n") (whole 0)) m
      = .ok (.bool (decide (Number.ofInt 0 ≤ x))) m :=
    (evaluate_binary (evaluate_variable setup _ n) rfl).trans rfl
  refine (bind_ok compared).trans ?_
  cases decide (Number.ofInt 0 ≤ x) <;> rfl

/-- The numbers below a natural number. -/
def numbers (n : Nat) : List Value := (List.range n).map fun j : Nat => .num (Number.ofInt j)

theorem length_numbers (n : Nat) : (numbers n).length = n := by
  unfold numbers
  rw [List.length_map, List.length_range]

theorem getElem_numbers {n j : Nat} (inside : j < (numbers n).length) :
    (numbers n)[j] = .num (Number.ofInt j) :=
  (List.getElem_map _).trans (congrArg (fun j : Nat => Value.num (Number.ofInt j)) (List.getElem_range _))

variable (setup depth place) in
/-- The numbers below a number that equals a natural number are those below that. -/
theorem callValue_range {n : Nat} (loaded : bundle.Loaded m.store scope)
    (declared : m.store.closure? f = some ⟨rangeFunction.1, rangeFunction.2, scope⟩)
    (equal : Number.same x (Number.ofInt n) = true) (small : n < 2 ^ 53) (few : n < setup.limits.rounds) :
    ∃ s', Returns (callValue setup (depth + 10) place (.function f) [.num x]) m
        (.list m.store.lists.size) s' ∧
      s'.items m.store.lists.size = (numbers n).toArray := by
  let m₀ : Machine := m.entered place ⟨rangeFunction.1, rangeFunction.2, scope⟩ [.num x]
  let c : Scope := passing (OrderedMap.empty.insert "n" (.num x)) scope
  have called : Called m.store scope c [.append] := called_passing loaded fun f _ => by cases f <;> rfl
  have shown : m₀.store.Shows m₀.scope c :=
    (Store.shows_newScope m.store (some scope)).define "n" (.num x)
  obtain ⟨least, bounds⟩ := Number.counts_to small equal
  have admitted : allHold (evaluate setup (depth + 8)) rangeFunction.1.before.conditions m₀ = .ok true m₀ :=
    (allHold_nonnegative (shown.value?_here rfl)).trans (by rw [decide_eq_true least])
  have runs : (upTo (line 18) (name (line 18) "n")).Runs setup depth
      (Sees m.store (making c m₀.store.lists.size) [.append]) (fun j => Number.ofInt j) n :=
    upTo_runs setup depth (line 18) small bounds fun m' sees =>
      evaluate_variable setup _ (sees.bound "n" _ (by decide) rfl)
  obtain ⟨s', ran, adds, made⟩ := sequence_gathering (e := name (line 19) "i") called (by decide) 17
    (m.adds_entered _ _ _) shown rfl (length_numbers n) few runs fun j inside m' _ i => by
      rw [getElem_numbers]
      exact evaluate_variable setup _ i
  exact ⟨_, ⟨callValue_of_admitted declared rfl rfl admitted ran, adds.define (Nat.le_refl _) _ _⟩, made⟩

variable (setup depth place) in
/-- A negative number is refused: the parameter has been bound, and nothing has been made. -/
theorem callValue_range_negative
    (declared : m.store.closure? f = some ⟨rangeFunction.1, rangeFunction.2, scope⟩)
    (negative : x < Number.ofInt 0) :
    ∃ s', callValue setup (depth + 10) place (.function f) [.num x] m
        = .error (.fault ⟨.precondition (some refusal), some (closeLexeme place),
            some (⟨"range", place⟩ :: m.frames).reverse⟩) { m with store := s' } ∧
      m.store.Adds s' ∧ s'.lists = m.store.lists ∧ s'.maps = m.store.maps := by
  let m₀ : Machine := m.entered place ⟨rangeFunction.1, rangeFunction.2, scope⟩ [.num x]
  have shown : m₀.store.Shows m₀.scope (passing (OrderedMap.empty.insert "n" (.num x)) scope) :=
    (Store.shows_newScope m.store (some scope)).define "n" (.num x)
  have refused : allHold (evaluate setup (depth + 8)) rangeFunction.1.before.conditions m₀
      = .ok false m₀ :=
    (allHold_nonnegative (shown.value?_here rfl)).trans
      (by rw [decide_eq_false (Number.not_le_of_lt_zero negative)])
  exact ⟨_, callValue_refused declared rfl refused, m.adds_entered _ _ _, rfl, rfl⟩

/-- What the function that looks for a value starts with. -/
theorem seeks_passing (loaded : bundle.Loaded m.store scope) (small : (m.store.items id).size < 2 ^ 53) :
    Seeks m.store scope (passing ((OrderedMap.empty.insert "items" (.list id)).insert "value" v) scope)
      "items" "value" id (m.store.items id).toList v where
  called := called_passing loaded fun f _ => by cases f <;> rfl
  listed := rfl
  sought := rfl
  plain := by decide
  small := Array.length_toList.symm ▸ small

theorem shows_passing :
    (m.entered place ⟨containsFunction.1, containsFunction.2, scope⟩ [.list id, v]).store.Shows
      m.store.scopes.size (passing ((OrderedMap.empty.insert "items" (.list id)).insert "value" v) scope) :=
  ((Store.shows_newScope m.store (some scope)).define "items" (.list id)).define "value" v

variable (setup depth place) in
/-- Looking for a value compares the items with it, one after another. -/
theorem callValue_contains (loaded : bundle.Loaded m.store scope)
    (declared : m.store.closure? f = some ⟨containsFunction.1, containsFunction.2, scope⟩)
    (small : (m.store.items id).size < 2 ^ 53) (few : (m.store.items id).size < setup.limits.rounds)
    {found : Value → Bool}
    (settles : ∀ s', m.store.Extends s' → ∀ e ∈ (m.store.items id).toList,
      s'.equal? ((depth + 2) / 2 + 1) e v = some (found e)) :
    ∃ s', Returns (callValue setup (depth + 10) place (.function f) [.list id, v]) m
      (.bool ((m.store.items id).toList.any found)) s' := by
  let m₀ : Machine := m.entered place ⟨containsFunction.1, containsFunction.2, scope⟩ [.list id, v]
  obtain ⟨s', searched, adds⟩ := (seeks_passing loaded small).execute_search (m := m₀) (line 8) (line 9)
    (m.adds_entered _ _ _) shows_passing rfl rfl (Array.length_toList.symm ▸ few) settles
  -- a hit returns from inside the loop; without one the last statement is reached
  have ends : ∃ signal, sequence (execute setup (depth + 8)) containsFunction.2 m₀
        = .ok signal { m₀ with store := s' } ∧
      signal.result = .bool ((m.store.items id).toList.any found) := by
    cases hit : (m.store.items id).toList.any found with
    | true =>
      rw [hit] at searched
      exact ⟨_, sequence_yield searched, rfl⟩
    | false =>
      rw [hit] at searched
      exact ⟨_, (sequence_next searched).trans (sequence_yield rfl), rfl⟩
  obtain ⟨signal, ended, result⟩ := ends
  have ran : callValue setup (depth + 10) place (.function f) [.list id, v] m = .ok signal.result _ :=
    callValue_of_body declared rfl rfl rfl ended
  rw [result] at ran
  exact ⟨_, ran, adds.define (Nat.le_refl _) _ _⟩

variable (setup depth place) in
/-- If there are not enough levels to compare even the first item, the call fails. -/
theorem callValue_contains_overflows (loaded : bundle.Loaded m.store scope)
    (declared : m.store.closure? f = some ⟨containsFunction.1, containsFunction.2, scope⟩)
    (small : (m.store.items id).size < 2 ^ 53) (few : (m.store.items id).size < setup.limits.rounds)
    (inside : 0 < (m.store.items id).toList.length)
    (unsettled : ∀ s', m.store.Extends s' →
      s'.equal? ((depth + 2) / 2 + 1) (m.store.items id).toList[0] v = none) :
    ∃ m', callValue setup (depth + 10) place (.function f) [.list id, v] m
      = .error (.fault ⟨.stackOverflow, some (closeLexeme place),
          some (⟨"contains", place⟩ :: m.frames).reverse⟩) m' := by
  let m₀ : Machine := m.entered place ⟨containsFunction.1, containsFunction.2, scope⟩ [.list id, v]
  obtain ⟨m₁, failed⟩ := (seeks_passing loaded small).execute_search_overflows (m := m₀) (line 8) (line 9)
    (m.adds_entered _ _ _) shows_passing rfl rfl (Array.length_toList.symm ▸ few) inside unsettled
  exact callValue_overflows declared rfl rfl (sequence_error failed)

end Calls

end ListHelpers

end ContractScript
