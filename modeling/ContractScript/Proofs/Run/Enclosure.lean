/-
Scopes and the scopes around them.

In a store that is nested the scope around a scope is older than it, and a namespace leads
to a scope that is newer than the one that has the namespace and that nothing encloses. So
the scopes that a walk outward passes form a finite chain from a scope to a root, each
older than the one before. A name or a namespace is looked up by asking the scopes of the
chain in turn, and the check that a walk makes at every step never ends it early. As
namespaces lead only to newer roots, no qualified name leads back to the chain of the scope
in which it is used.

Stores only grow. A scope that has been made stays, and so does what is around it, and a
function stays what it is.
-/
import ContractScript.Scope

set_option autoImplicit false

namespace ContractScript.Store

/-! ## Chains of scopes -/

/-- The scopes that a walk outward passes, from a scope to one that nothing encloses. -/
inductive Chain (s : Store) : ScopeId → List ScopeId → Prop
  | root {id : ScopeId} (last : (s.scope id).enclosing = none) : Chain s id [id]
  | inside {id outer : ScopeId} {path : List ScopeId} (around : (s.scope id).enclosing = some outer)
      (further : Chain s outer path) : Chain s id (id :: path)

/-- What holds of the scopes and functions of a store. -/
structure Nested (s : Store) : Prop where
  /-- The scope around a scope is older. -/
  around : ∀ id outer, (s.scope id).enclosing = some outer → outer < id
  /-- A namespace is newer than the scope that has it, and nothing encloses it. -/
  space : ∀ id name target, (s.scope id).spaces.get? name = some target →
    id < target ∧ target < s.scopes.size ∧ (s.scope target).enclosing = none
  /-- The scope in which a function was declared is there. -/
  closure : ∀ id c, s.closure? id = some c → c.scope < s.scopes.size

namespace Chain

variable {s : Store} {id : ScopeId} {path : List ScopeId}

theorem mem_self (h : s.Chain id path) : id ∈ path := by
  cases h with
  | root => exact List.mem_cons_self
  | inside => exact List.mem_cons_self

/-- A chain ends with a scope that nothing encloses, and has no other such scope. -/
theorem root_iff (h : s.Chain id path) {i : ScopeId} (member : i ∈ path) :
    (s.scope i).enclosing = none ↔ path.getLast? = some i := by
  induction h with
  | @root id last =>
    rw [List.mem_singleton] at member
    subst member
    simp [last]
  | @inside id outer path around further ih =>
    have more : path ≠ [] := List.ne_nil_of_mem further.mem_self
    rw [List.getLast?_cons_of_ne_nil more]
    rcases List.mem_cons.mp member with rfl | member
    · -- the first scope is not a root, and it is not in the rest of the chain as its last scope is
      constructor
      · intro none
        rw [none] at around
        cases around
      · intro last
        exact absurd (List.mem_of_getLast? last) fun again => by
          rw [(ih again).mpr last] at around
          cases around
    · exact ih member

variable (nested : s.Nested)
include nested

theorem le (h : s.Chain id path) : ∀ i ∈ path, i ≤ id := by
  induction h with
  | root =>
    intro i member
    exact Nat.le_of_eq (List.mem_singleton.mp member)
  | @inside id outer path around _ ih =>
    intro i member
    have older := nested.around id outer around
    rcases List.mem_cons.mp member with rfl | member
    · exact Nat.le_refl i
    · exact Nat.le_trans (ih i member) (Nat.le_of_lt older)

/-- Each scope of a chain is older than those before it. -/
theorem older (h : s.Chain id path) : path.Pairwise (· > ·) := by
  induction h with
  | root => exact List.pairwise_singleton _ _
  | @inside id outer path around further ih =>
    refine List.pairwise_cons.mpr ⟨fun i member => ?_, ih⟩
    exact Nat.lt_of_le_of_lt (further.le nested i member) (nested.around id outer around)

/-- Walking outward asks the scopes of the chain in turn: the check on the way always passes. -/
theorem findOutward {α : Type} (ask : ScopeId → Scope → Option α) (h : s.Chain id path) :
    s.findOutward ask id = path.findSome? fun i => ask i (s.scope i) := by
  induction h with
  | @root id last =>
    rw [Store.findOutward, last]
    cases found : ask id (s.scope id) with
    | none => simp [found]
    | some a => simp [found]
  | @inside id outer path around _ ih =>
    rw [Store.findOutward, around, List.findSome?_cons, ← ih]
    cases found : ask id (s.scope id) with
    | none => exact if_pos (nested.around id outer around)
    | some a => rfl

theorem value? (h : s.Chain id path) (name : String) :
    s.value? id name = path.findSome? fun i => (s.scope i).bindings.get? name :=
  h.findOutward nested _

theorem space? (h : s.Chain id path) (name : String) :
    s.space? id name = path.findSome? fun i => (s.scope i).spaces.get? name :=
  h.findOutward nested _

theorem owner? (h : s.Chain id path) (name : String) :
    s.owner? id name = path.find? fun i => (s.scope i).bindings.contains name := by
  have found := h.findOutward nested fun i c => if c.bindings.contains name then some i else none
  have first : ∀ l : List ScopeId,
      l.findSome? (fun i => if (s.scope i).bindings.contains name then some i else none)
        = l.find? fun i => (s.scope i).bindings.contains name := by
    intro l
    induction l with
    | nil => rfl
    | cons i rest ih =>
      rw [List.findSome?_cons, List.find?_cons, ← ih]
      cases (s.scope i).bindings.contains name <;> rfl
  exact found.trans (first path)

end Chain

namespace Nested

variable {s : Store} (h : s.Nested)
include h

/-- From every scope a chain leads to a root. -/
theorem chain (id : ScopeId) : ∃ path, s.Chain id path := by
  -- the scope around a scope is older, so the induction is on age
  induction id using Nat.strongRecOn with
  | ind id ih =>
    cases around : (s.scope id).enclosing with
    | none => exact ⟨[id], .root around⟩
    | some outer =>
      obtain ⟨path, further⟩ := ih outer (h.around id outer around)
      exact ⟨id :: path, .inside around further⟩

/-- A namespace that is found from a scope is newer than some scope of its chain. -/
theorem space_newer {id target : ScopeId} {path : List ScopeId} {name : String}
    (chain : s.Chain id path) (found : s.space? id name = some target) :
    (∃ holder ∈ path, holder < target) ∧ target < s.scopes.size ∧
      (s.scope target).enclosing = none := by
  rw [chain.space? h, List.findSome?_eq_some_iff] at found
  obtain ⟨earlier, holder, later, rfl, has, -⟩ := found
  obtain ⟨newer, there, root⟩ := h.space holder name target has
  have member : holder ∈ earlier ++ holder :: later :=
    List.mem_append_right _ List.mem_cons_self
  exact ⟨⟨holder, member, newer⟩, there, root⟩

/-- From a root namespaces lead to roots that are no older. -/
theorem spaceOf_newer {target : ScopeId} (spaces : List Lexeme) :
    ∀ {start : ScopeId}, (s.scope start).enclosing = none → start < s.scopes.size →
      s.spaceOf start spaces = .ok target →
      start ≤ target ∧ target < s.scopes.size ∧ (s.scope target).enclosing = none := by
  induction spaces with
  | nil =>
    intro start root there led
    rw [Store.spaceOf] at led
    cases led
    exact ⟨Nat.le_refl _, there, root⟩
  | cons name rest ih =>
    intro start root _ led
    rw [Store.spaceOf] at led
    cases found : s.space? start name.text with
    | none =>
      rw [found] at led
      cases led
    | some next =>
      rw [found] at led
      obtain ⟨⟨holder, member, newer⟩, there, root'⟩ := h.space_newer (.root root) found
      rw [List.mem_singleton.mp member] at newer
      obtain ⟨further, there', root''⟩ := ih root' there led
      exact ⟨Nat.le_of_lt (Nat.lt_of_lt_of_le newer further), there', root''⟩

/-- Namespaces lead to a root that is not on the chain from which they start. -/
theorem spaceOf_apart {id target : ScopeId} {path : List ScopeId} (chain : s.Chain id path)
    {spaces : List Lexeme} (some : spaces ≠ []) (led : s.spaceOf id spaces = .ok target) :
    target ∉ path ∧ target < s.scopes.size ∧ (s.scope target).enclosing = none := by
  cases spaces with
  | nil => exact absurd rfl some
  | cons name rest =>
    rw [Store.spaceOf] at led
    cases found : s.space? id name.text with
    | none =>
      rw [found] at led
      cases led
    | some next =>
      rw [found] at led
      obtain ⟨⟨holder, member, newer⟩, there, root⟩ := h.space_newer chain found
      obtain ⟨further, there', root'⟩ := h.spaceOf_newer rest root there led
      have above : holder < target := Nat.lt_of_lt_of_le newer further
      refine ⟨fun again => ?_, there', root'⟩
      -- the one root of the chain is its oldest scope, but the target is newer than some scope
      obtain ⟨front, rfl⟩ := List.getLast?_eq_some_iff.mp ((chain.root_iff again).mp root')
      have older := List.pairwise_append.mp (chain.older h)
      rcases List.mem_append.mp member with early | final
      · exact Nat.lt_asymm above (older.2.2 holder early target List.mem_cons_self)
      · exact Nat.ne_of_lt above (List.mem_singleton.mp final)

/-- The value of a qualified name is bound in a root that is not on the chain of the scope that uses
the name. -/
theorem qualified_apart {id : ScopeId} {path : List ScopeId} (chain : s.Chain id path)
    {spaces : List Lexeme} (some : spaces ≠ []) {name : Lexeme} {v : Value}
    (found : s.qualifiedValue id spaces name = .ok v) :
    ∃ target, target ∉ path ∧ (s.scope target).enclosing = none ∧
      (s.scope target).bindings.get? name.text = .some v := by
  unfold Store.qualifiedValue at found
  cases led : s.spaceOf id spaces with
  | error missing =>
    rw [led] at found
    cases found
  | ok target =>
    rw [led] at found
    obtain ⟨apart, -, root⟩ := h.spaceOf_apart chain some led
    refine ⟨target, apart, root, ?_⟩
    -- nothing encloses the target, so the last name is looked up there and nowhere else
    dsimp only at found
    rw [(Chain.root root).value? h, List.findSome?_singleton] at found
    cases bound : (s.scope target).bindings.get? name.text with
    | none =>
      rw [bound] at found
      cases found
    | some w =>
      rw [bound] at found
      cases found
      rfl

end Nested

/-! ## Stores that grow -/

/-- Every scope of one store is one of another, with the same scope around it, and every function is
the same there. -/
structure Grown (s s' : Store) : Prop where
  scope : ∀ id, id < s.scopes.size →
    id < s'.scopes.size ∧ (s'.scope id).enclosing = (s.scope id).enclosing
  closure : ∀ id c, s.closure? id = some c → s'.closure? id = some c

theorem Grown.refl (s : Store) : s.Grown s :=
  ⟨fun _ there => ⟨there, rfl⟩, fun _ _ found => found⟩

theorem Grown.trans {s s₁ s' : Store} (h : s.Grown s₁) (h' : s₁.Grown s') : s.Grown s' where
  scope id there := by
    obtain ⟨there₁, same⟩ := h.scope id there
    obtain ⟨there', same'⟩ := h'.scope id there₁
    exact ⟨there', same'.trans same⟩
  closure id c found := h'.closure id c (h.closure id c found)

theorem Grown.size_le {s s' : Store} (h : s.Grown s') : s.scopes.size ≤ s'.scopes.size := by
  by_cases less : s'.scopes.size < s.scopes.size
  · exact absurd (h.scope s'.scopes.size less).1 (Nat.lt_irrefl _)
  · omega

/-- The scopes and functions of a store, without what names mean in the scopes. -/
def outline (s : Store) : Array Closure × Array (OrderedMap String ScopeId × Option ScopeId) :=
  (s.functions, s.scopes.map fun c => (c.spaces, c.enclosing))

section Outline

variable {s s' : Store} (same : s'.outline = s.outline)
include same

theorem size_of_outline : s'.scopes.size = s.scopes.size := by
  have sizes := congrArg (fun o => o.2.size) same
  simpa only [outline, Array.size_map] using sizes

theorem scope_of_outline (id : ScopeId) :
    (s'.scope id).spaces = (s.scope id).spaces ∧ (s'.scope id).enclosing = (s.scope id).enclosing := by
  have cells := congrArg (fun o => o.2.getD id (.empty, none)) same
  simp only [outline, Array.getD_eq_getD_getElem?, Array.getElem?_map] at cells
  unfold scope
  rw [Array.getD_eq_getD_getElem?, Array.getD_eq_getD_getElem?]
  cases found : s.scopes[id]? with
  | none =>
    cases found' : s'.scopes[id]? with
    | none => exact ⟨rfl, rfl⟩
    | some c =>
      rw [found, found'] at cells
      exact Prod.mk.inj cells
  | some c =>
    cases found' : s'.scopes[id]? with
    | none =>
      rw [found, found'] at cells
      exact Prod.mk.inj cells
    | some c' =>
      rw [found, found'] at cells
      exact Prod.mk.inj cells

theorem closure?_of_outline (id : FunctionId) : s'.closure? id = s.closure? id :=
  congrArg (fun o => o.1[id]?) same

theorem Grown.of_outline : s.Grown s' where
  scope id there := by
    rw [size_of_outline same, (scope_of_outline same id).2]
    exact ⟨there, rfl⟩
  closure id c found := by
    rw [closure?_of_outline same]
    exact found

theorem Nested.of_outline (h : s.Nested) : s'.Nested where
  around id outer found := by
    rw [(scope_of_outline same id).2] at found
    exact h.around id outer found
  space id name target found := by
    rw [(scope_of_outline same id).1] at found
    rw [size_of_outline same, (scope_of_outline same target).2]
    exact h.space id name target found
  closure id c found := by
    rw [closure?_of_outline same] at found
    rw [size_of_outline same]
    exact h.closure id c found

end Outline

/-! ## What changes the outline -/

section Changes

variable {s : Store}

theorem scope_push_lt {id : ScopeId} (c : Scope) (there : id < s.scopes.size) :
    Store.scope { s with scopes := s.scopes.push c } id = s.scope id := by
  unfold scope
  rw [Array.getD_eq_getD_getElem?, Array.getElem?_push, if_neg (Nat.ne_of_lt there),
    Array.getD_eq_getD_getElem?]

theorem scope_push_size (c : Scope) :
    Store.scope { s with scopes := s.scopes.push c } s.scopes.size = c := by
  unfold scope
  rw [Array.getD_eq_getD_getElem?, Array.getElem?_push_size]
  rfl

theorem scope_of_size_le {id : ScopeId} (missing : s.scopes.size ≤ id) :
    s.scope id = ⟨.empty, .empty, none⟩ := by
  unfold scope
  rw [Array.getD_eq_getD_getElem?, Array.getElem?_eq_none missing]
  rfl

theorem Grown.pushScope (s : Store) (c : Scope) : s.Grown { s with scopes := s.scopes.push c } where
  scope id there := by
    rw [scope_push_lt c there, Array.size_push]
    exact ⟨Nat.lt_succ_of_lt there, rfl⟩
  closure _ _ found := found

/-- A scope without namespaces is added, inside of one that is there or of none. -/
theorem Nested.pushScope (h : s.Nested) {c : Scope} (bare : c.spaces = .empty)
    (inside : ∀ outer, c.enclosing = some outer → outer < s.scopes.size) :
    Nested { s with scopes := s.scopes.push c } := by
  -- a scope is an old one, the new one, or not there, and then it reads as an empty one
  have cases (id : ScopeId) : (id < s.scopes.size ∧
      Store.scope { s with scopes := s.scopes.push c } id = s.scope id) ∨
      (id = s.scopes.size ∧ Store.scope { s with scopes := s.scopes.push c } id = c) ∨
      Store.scope { s with scopes := s.scopes.push c } id = ⟨.empty, .empty, none⟩ := by
    rcases Nat.lt_trichotomy id s.scopes.size with low | rfl | high
    · exact .inl ⟨low, scope_push_lt c low⟩
    · exact .inr (.inl ⟨rfl, scope_push_size c⟩)
    · refine .inr (.inr (scope_of_size_le ?_))
      rw [Array.size_push]
      exact high
  refine ⟨fun id outer found => ?_, fun id name target found => ?_, fun id f found => ?_⟩
  · rcases cases id with ⟨-, same⟩ | ⟨rfl, same⟩ | same
    · rw [same] at found
      exact h.around id outer found
    · rw [same] at found
      exact inside outer found
    · rw [same] at found
      cases found
  · rcases cases id with ⟨-, same⟩ | ⟨rfl, same⟩ | same
    · rw [same] at found
      obtain ⟨newer, there, root⟩ := h.space id name target found
      rw [scope_push_lt c there, Array.size_push]
      exact ⟨newer, Nat.lt_succ_of_lt there, root⟩
    · rw [same, bare] at found
      cases found
    · rw [same] at found
      cases found
  · rw [Array.size_push]
    exact Nat.lt_succ_of_lt (h.closure id f found)

theorem Grown.newFunction (s : Store) (c : Closure) : s.Grown (s.newFunction c).2 where
  scope _ there := ⟨there, rfl⟩
  closure id f found := by
    have low : id < s.functions.size := (Array.getElem?_eq_some_iff.mp found).1
    show (s.functions.push c)[id]? = some f
    rw [Array.getElem?_push, if_neg (Nat.ne_of_lt low)]
    exact found

theorem Nested.newFunction (h : s.Nested) {c : Closure} (there : c.scope < s.scopes.size) :
    (s.newFunction c).2.Nested where
  around := h.around
  space := h.space
  closure id f found := by
    have pushed : (s.functions.push c)[id]? = some f := found
    rw [Array.getElem?_push] at pushed
    split at pushed
    · cases pushed
      exact there
    · exact h.closure id f pushed

theorem scope_defineSpace (s : Store) (holder : ScopeId) (name : String) (target id : ScopeId) :
    ((s.defineSpace holder name target).scope id).enclosing = (s.scope id).enclosing ∧
    (((s.defineSpace holder name target).scope id).spaces = (s.scope id).spaces ∨
      id = holder ∧ ((s.defineSpace holder name target).scope id).spaces
        = (s.scope id).spaces.insert name target) := by
  unfold scope defineSpace
  rw [Array.getD_eq_getD_getElem?, Array.getD_eq_getD_getElem?, Array.getElem?_modify]
  split
  · rename_i here
    cases s.scopes[id]? with
    | none => exact ⟨rfl, .inl rfl⟩
    | some c => exact ⟨rfl, .inr ⟨here.symm, rfl⟩⟩
  · exact ⟨rfl, .inl rfl⟩

theorem bindings_defineSpace (s : Store) (holder : ScopeId) (name : String) (target id : ScopeId) :
    ((s.defineSpace holder name target).scope id).bindings = (s.scope id).bindings := by
  unfold scope defineSpace
  rw [Array.getD_eq_getD_getElem?, Array.getD_eq_getD_getElem?, Array.getElem?_modify]
  split
  · cases s.scopes[id]? <;> rfl
  · rfl

theorem Grown.defineSpace (s : Store) (holder : ScopeId) (name : String) (target : ScopeId) :
    s.Grown (s.defineSpace holder name target) where
  scope id there := by
    have size : (s.defineSpace holder name target).scopes.size = s.scopes.size := Array.size_modify
    rw [size]
    exact ⟨there, (scope_defineSpace s holder name target id).1⟩
  closure _ _ found := found

theorem Nested.defineSpace (h : s.Nested) {holder target : ScopeId} (name : String)
    (newer : holder < target) (there : target < s.scopes.size)
    (root : (s.scope target).enclosing = none) : (s.defineSpace holder name target).Nested := by
  have size : (s.defineSpace holder name target).scopes.size = s.scopes.size := Array.size_modify
  refine ⟨fun id outer found => ?_, fun id other target' found => ?_, fun id f found => ?_⟩
  · rw [(scope_defineSpace s holder name target id).1] at found
    exact h.around id outer found
  · rw [size, (scope_defineSpace s holder name target target').1]
    -- only the holder has something new, and what is new there is the target
    rcases (scope_defineSpace s holder name target id).2 with same | ⟨rfl, more⟩
    · rw [same] at found
      exact h.space id other target' found
    · rw [more, OrderedMap.get?_insert] at found
      split at found
      · cases found
        exact ⟨newer, there, root⟩
      · exact h.space id other target' found
  · rw [size]
    exact h.closure id f found

theorem outline_define (s : Store) (id : ScopeId) (name : String) (v : Value) :
    (s.define id name v).outline = s.outline := by
  unfold outline define
  refine Prod.ext rfl ?_
  refine Array.ext (by simp) fun i low high => ?_
  simp only [Array.getElem_map, Array.getElem_modify]
  split
  · rfl
  · rfl

end Changes

end ContractScript.Store
