/-
A module that keeps to itself stays as it was imported.

An import under a name leaves a scope of its own behind. When the import is over no code runs
in that scope any more: what still reaches it are the functions that were declared there, and
they can only assign to names. So if the code of these functions assigns to none of the names
that are bound there, and imports nothing, the scope is sealed: whatever else the run does,
these names mean what they meant when the import ended.

Whether code may do harm depends on where it runs. In a scope that is not inside the sealed
one any code will do. Inside it the code has to spare the names, and it must not run in the
sealed scope itself, where a declaration would bind them anew. This is shown of an evaluation
together with the questions that it puts. The same argument then serves twice: for evaluations
that start when the scope is sealed, and for those around the import, which are the ones that
were under way when it was made.
-/
import ContractScript.Proofs.Run.Nesting

set_option autoImplicit false

namespace ContractScript

open EvalM Course

/-! ## Code that spares names -/

mutual

/-- Whether an expression assigns to none of the names that are to be kept. -/
def Expr.spares (kept : String → Bool) : Expr → Bool
  | .literal _ | .variable _ | .qualified _ _ => true
  | .group inner => inner.spares kept
  | .unary _ _ operand => operand.spares kept
  | .binary _ _ left right | .logical _ _ left right => left.spares kept && right.spares kept
  | .choice condition whenTrue whenFalse =>
    condition.spares kept && whenTrue.spares kept && whenFalse.spares kept
  | .assign name value => !kept name.text && value.spares kept
  | .call callee _ arguments => callee.spares kept && Expr.allSpare kept arguments
  | .list items => Expr.allSpare kept items
  | .map pairs => Expr.pairsSpare kept pairs
  | .index collection _ key => collection.spares kept && key.spares kept
  | .slice collection _ first last =>
    collection.spares kept && first.spares kept && last.spares kept

/-- The same of all expressions of a list. -/
def Expr.allSpare (kept : String → Bool) : List Expr → Bool
  | [] => true
  | e :: rest => e.spares kept && Expr.allSpare kept rest

/-- The same of all keys and values of a map. -/
def Expr.pairsSpare (kept : String → Bool) : List (Expr × Expr) → Bool
  | [] => true
  | (k, v) :: rest => k.spares kept && v.spares kept && Expr.pairsSpare kept rest

end

/-- The same of the conditions before and after a function. -/
def Signature.spares (kept : String → Bool) (s : Signature) : Bool :=
  Expr.allSpare kept s.before.conditions && Expr.allSpare kept s.after.conditions

mutual

/-- Whether a statement assigns to none of the names that are to be kept, and imports nothing. -/
def Stmt.spares (kept : String → Bool) : Stmt → Bool
  | .expression value | .print value => value.spares kept
  | .var _ value | .yield _ value =>
    match value with
    | some e => e.spares kept
    | none => true
  | .block body => Stmt.allSpare kept body
  | .branch condition whenTrue whenFalse =>
    condition.spares kept && whenTrue.spares kept && Stmt.optionSpares kept whenFalse
  | .loop condition body => condition.spares kept && body.spares kept
  | .leave _ => true
  | .function signature body => signature.spares kept && Stmt.allSpare kept body
  | .contract _ _ clauses => Expr.allSpare kept clauses.conditions
  | .load _ _ _ => false
  | .test _ _ body => body.spares kept

/-- The same of all statements of a body. -/
def Stmt.allSpare (kept : String → Bool) : List Stmt → Bool
  | [] => true
  | s :: rest => s.spares kept && Stmt.allSpare kept rest

/-- The same of a statement that may be missing. -/
def Stmt.optionSpares (kept : String → Bool) : Option Stmt → Bool
  | none => true
  | some s => s.spares kept

end

/-- The same of what a function does when it is called. -/
def Closure.spares (kept : String → Bool) (c : Closure) : Bool :=
  c.signature.spares kept && Stmt.allSpare kept c.body

/-- The same of the code of a task. A call has none of its own, and an import may bring any. -/
def Task.spares (kept : String → Bool) : Task → Bool
  | .evaluate e => e.spares kept
  | .call _ _ _ | .invoke _ _ => true
  | .execute s => s.spares kept
  | .load _ _ _ => false

section Members

variable {kept : String → Bool}

theorem Expr.allSpare_iff {es : List Expr} :
    Expr.allSpare kept es = true ↔ ∀ e ∈ es, e.spares kept = true := by
  induction es with
  | nil => simp [Expr.allSpare]
  | cons e rest ih => simp [Expr.allSpare, ih]

theorem Expr.pairsSpare_iff {pairs : List (Expr × Expr)} :
    Expr.pairsSpare kept pairs = true ↔
      ∀ pair ∈ pairs, pair.1.spares kept = true ∧ pair.2.spares kept = true := by
  induction pairs with
  | nil => simp [Expr.pairsSpare]
  | cons pair rest ih =>
    obtain ⟨k, v⟩ := pair
    rw [Expr.pairsSpare, Bool.and_eq_true, Bool.and_eq_true, ih, List.forall_mem_cons]

theorem Stmt.allSpare_iff {body : List Stmt} :
    Stmt.allSpare kept body = true ↔ ∀ s ∈ body, s.spares kept = true := by
  induction body with
  | nil => simp [Stmt.allSpare]
  | cons s rest ih => simp [Stmt.allSpare, ih]

end Members

/-! ## Inside a scope -/

namespace Store

/-- A scope is a given one or inside of it. -/
inductive Within (s : Store) (outermost : ScopeId) : ScopeId → Prop
  | here : Within s outermost outermost
  | inside {id outer : ScopeId} (around : (s.scope id).enclosing = some outer)
      (further : Within s outermost outer) : Within s outermost id

/-- A scope is there, and nothing encloses it. -/
def Rooted (s : Store) (id : ScopeId) : Prop :=
  id < s.scopes.size ∧ (s.scope id).enclosing = none

section Within

variable {s s' : Store} {outermost id outer : ScopeId}

theorem within_inside (around : (s.scope id).enclosing = some outer) :
    s.Within outermost id ↔ id = outermost ∨ s.Within outermost outer := by
  constructor
  · intro h
    cases h with
    | here => exact .inl rfl
    | inside around' further =>
      rw [around] at around'
      cases around'
      exact .inr further
  · rintro (rfl | further)
    · exact .here
    · exact .inside around further

theorem within_root (root : (s.scope id).enclosing = none) (h : s.Within outermost id) :
    id = outermost := by
  cases h with
  | here => rfl
  | inside around _ =>
    rw [root] at around
    cases around

theorem Chain.within {path : List ScopeId} (chain : s.Chain id path) (member : outermost ∈ path) :
    s.Within outermost id := by
  induction chain with
  | root =>
    rw [List.mem_singleton.mp member]
    exact .here
  | inside around _ ih =>
    rcases List.mem_cons.mp member with rfl | member
    · exact .here
    · exact .inside around (ih member)

theorem Within.le (nested : s.Nested) (h : s.Within outermost id) : outermost ≤ id := by
  induction h with
  | here => exact Nat.le_refl _
  | inside around _ ih => exact Nat.le_trans ih (Nat.le_of_lt (nested.around _ _ around))

/-- What is around a scope that is there does not change. -/
theorem Within.of_grown (nested : s.Nested) (grown : s.Grown s') (h : s'.Within outermost id)
    (there : id < s.scopes.size) : s.Within outermost id := by
  induction h with
  | here => exact .here
  | inside around _ ih =>
    rw [(grown.scope _ there).2] at around
    exact .inside around (ih (Nat.lt_trans (nested.around _ _ around) there))

theorem Rooted.grown (h : s.Rooted id) (grown : s.Grown s') : s'.Rooted id := by
  obtain ⟨there, same⟩ := grown.scope id h.1
  exact ⟨there, same.trans h.2⟩

theorem Rooted.of_grown (grown : s.Grown s') (h : s'.Rooted id) (there : id < s.scopes.size) :
    s.Rooted id :=
  ⟨there, (grown.scope id there).2.symm.trans h.2⟩

end Within

end Store

/-! ## Seals -/

/-- A scope that is to stay as it is in some store. -/
structure Seal where
  base : Store
  scope : ScopeId

namespace Seal

/-- The names that are bound in the scope. -/
def kept (σ : Seal) : String → Bool :=
  (σ.base.scope σ.scope).bindings.contains

/-- A store has grown from the one of the seal, the scope is as it was, and no function inside the
scope does it any harm. -/
structure Holds (σ : Seal) (s : Store) : Prop where
  grown : σ.base.Grown s
  bindings : (s.scope σ.scope).bindings = (σ.base.scope σ.scope).bindings
  closures : ∀ id c, s.closure? id = some c → s.Within σ.scope c.scope → c.spares σ.kept = true

/-- If the scope is there, and nothing encloses it, the seal holds. -/
def Intact (σ : Seal) (s : Store) : Prop :=
  s.Rooted σ.scope → σ.Holds s

/-- Code runs in a scope that is there. If that is inside the sealed one, it is not that one itself
and the code is tame. -/
def Safe (σ : Seal) (tame : Prop) (s : Store) (id : ScopeId) : Prop :=
  id < s.scopes.size ∧ (s.Rooted σ.scope → s.Within σ.scope id → id ≠ σ.scope ∧ tame)

/-- A state in which code may run. -/
structure Sound (σ : Seal) (tame : Prop) (m : Machine) : Prop where
  nested : m.store.Nested
  intact : σ.Intact m.store
  safe : σ.Safe tame m.store m.scope

/-- A step leaves the scopes nested and the seal intact, and the current scope is the same again. -/
structure Leads (σ : Seal) (m m' : Machine) : Prop where
  grown : m.store.Grown m'.store
  nested : m'.store.Nested
  intact : σ.Intact m'.store
  scope : m'.scope = m.scope

variable {σ : Seal} {tame tame' : Prop} {s s' : Store} {m m₁ m' : Machine}

theorem Safe.weaken {id : ScopeId} (h : σ.Safe tame s id) (imp : tame → tame') : σ.Safe tame' s id :=
  ⟨h.1, fun rooted within => ⟨(h.2 rooted within).1, imp (h.2 rooted within).2⟩⟩

theorem Safe.grown {id : ScopeId} (h : σ.Safe tame s id) (nested : s.Nested) (grown : s.Grown s') :
    σ.Safe tame s' id := by
  refine ⟨(grown.scope id h.1).1, fun rooted within => ?_⟩
  have before := within.of_grown nested grown h.1
  exact h.2 (rooted.of_grown grown (Nat.lt_of_le_of_lt (before.le nested) h.1)) before

/-- The sealed scope itself is not safe. -/
theorem Safe.ne {id : ScopeId} (h : σ.Safe tame s id) (rooted : s.Rooted σ.scope) : id ≠ σ.scope := by
  intro same
  have within : s.Within σ.scope id := same ▸ .here
  exact (h.2 rooted within).1 same

/-- A scope that is there, but not inside the sealed one, is safe for any code. -/
theorem safe_of_early {id : ScopeId} (nested : s.Nested) (there : id < s.scopes.size)
    (early : id < σ.scope) : σ.Safe tame s id :=
  ⟨there, fun _ within => absurd (within.le nested) (Nat.not_le_of_lt early)⟩

theorem Sound.weaken (h : σ.Sound tame m) (imp : tame → tame') : σ.Sound tame' m :=
  ⟨h.nested, h.intact, h.safe.weaken imp⟩

theorem Sound.leads (h : σ.Sound tame m) (leads : σ.Leads m m') : σ.Sound tame m' where
  nested := leads.nested
  intact := leads.intact
  safe := by
    rw [leads.scope]
    exact h.safe.grown h.nested leads.grown

theorem Leads.trans (h : σ.Leads m m₁) (h' : σ.Leads m₁ m') : σ.Leads m m' :=
  ⟨h.grown.trans h'.grown, h'.nested, h'.intact, h'.scope.trans h.scope⟩

/-- A seal stays intact if the functions are the same or tame, the scope keeps its bindings, and it
is not made. -/
theorem Intact.change (h : σ.Intact s) (grown : s.Grown s')
    (functions : s.Rooted σ.scope → ∀ id c, s'.closure? id = some c →
      (s.closure? id = some c ∧ c.scope < s.scopes.size) ∨
        (s'.Within σ.scope c.scope → c.spares σ.kept = true))
    (bindings : s.Rooted σ.scope → (s'.scope σ.scope).bindings = (s.scope σ.scope).bindings)
    (old : s'.Rooted σ.scope → σ.scope < s.scopes.size) (nested : s.Nested) : σ.Intact s' := by
  intro rooted'
  have rooted := rooted'.of_grown grown (old rooted')
  have holds := h rooted
  refine ⟨holds.grown.trans grown, (bindings rooted).trans holds.bindings, ?_⟩
  intro id c found within
  rcases functions rooted id c found with ⟨same, there⟩ | spared
  · exact holds.closures id c same (within.of_grown nested grown there)
  · exact spared within

/-! ### What single steps lead to -/

/-- What a state shows of its scopes and functions, and of what names mean. -/
def shape (m : Machine) : (Array Closure × Array Scope) × ScopeId :=
  ((m.store.functions, m.store.scopes), m.scope)

instance : Muted shape where
  contents _ _ _ := rfl
  events _ _ := rfl
  host _ _ := rfl

theorem Sound.of_shape (h : σ.Sound tame m) (same : shape m' = shape m) : σ.Leads m m' := by
  obtain ⟨store, scope⟩ := Prod.mk.inj same
  obtain ⟨functions, scopes⟩ := Prod.mk.inj store
  have outline : m'.store.outline = m.store.outline := by
    unfold Store.outline
    rw [functions, scopes]
  have bindings (id : ScopeId) : m'.store.scope id = m.store.scope id := by
    unfold Store.scope
    rw [scopes]
  have grown := Store.Grown.of_outline outline
  refine ⟨grown, h.nested.of_outline outline, ?_, scope⟩
  refine h.intact.change grown ?_ (fun _ => by rw [bindings]) (fun rooted => ?_) h.nested
  · intro _ id c found
    rw [Store.closure?_of_outline outline] at found
    exact .inl ⟨found, h.nested.closure id c found⟩
  · rw [← Store.size_of_outline outline]
    exact rooted.1

/-- A name is bound in a scope that is not the sealed one, or is none of its names. -/
theorem Sound.define (h : σ.Sound tame m) {id : ScopeId} {name : String} {v : Value}
    (apart : m.store.Rooted σ.scope → id ≠ σ.scope) :
    σ.Leads m { m with store := m.store.define id name v } := by
  have outline := Store.outline_define m.store id name v
  have grown := Store.Grown.of_outline outline
  refine ⟨grown, h.nested.of_outline outline, ?_, rfl⟩
  refine h.intact.change grown ?_ (fun rooted => ?_) (fun rooted => ?_) h.nested
  · intro _ other c found
    have found : (m.store.define id name v).closure? other = some c := found
    rw [Store.closure?_of_outline outline] at found
    exact .inl ⟨found, h.nested.closure other c found⟩
  · have differs : σ.scope ≠ id := fun same => apart rooted same.symm
    unfold Store.scope Store.define
    rw [Array.getD_eq_getD_getElem?, Array.getD_eq_getD_getElem?, Array.getElem?_modify,
      if_neg differs.symm]
  · rw [← Store.size_of_outline outline]
    exact rooted.1

/-- Tame code assigns to no name of the sealed scope. -/
theorem Sound.assign (h : σ.Sound tame m) (name : Lexeme) (v : Value)
    (spared : tame → σ.kept name.text = false) :
    σ.Leads m (finalState (EvalM.assign name v) m) := by
  have ran {step : EvalM Unit} (same : EvalM.assign name v m = step m) :
      finalState (EvalM.assign name v) m = finalState step m := by
    unfold finalState
    rw [same]
  have reads : (get : EvalM Machine) m = .ok m m := rfl
  cases found : m.store.owner? m.scope name.text with
  | none =>
    have fails : EvalM.assign name v m = (failAt name (.undefinedVariable name.text) : EvalM Unit) m := by
      unfold EvalM.assign
      rw [bind_ok reads, found]
    rw [ran fails]
    exact h.of_shape rfl
  | some owner =>
    have writes : EvalM.assign name v m = EvalM.define owner name.text v m := by
      unfold EvalM.assign
      rw [bind_ok reads, found]
    rw [ran writes]
    refine h.define fun rooted same => ?_
    obtain ⟨path, chain⟩ := h.nested.chain m.scope
    rw [chain.owner? h.nested] at found
    have member := List.mem_of_find?_eq_some found
    have bound := List.find?_some found
    rw [same] at member bound
    -- the name is bound in the sealed scope, as it was at first
    rw [(h.intact rooted).bindings] at bound
    have tame := (h.safe.2 rooted (chain.within member)).2
    have missing := spared tame
    unfold Seal.kept at missing
    rw [missing] at bound
    cases bound

/-- A function that is declared inside the sealed scope has tame code. -/
theorem Sound.newFunction (h : σ.Sound tame m) (c : Closure) (here : c.scope = m.scope)
    (spared : tame → c.spares σ.kept = true) :
    σ.Leads m { m with store := (m.store.newFunction c).2 } := by
  have grown := Store.Grown.newFunction m.store c
  have there : c.scope < m.store.scopes.size := by
    rw [here]
    exact h.safe.1
  refine ⟨grown, h.nested.newFunction there, ?_, rfl⟩
  refine h.intact.change grown (fun rooted id f found => ?_) (fun _ => rfl) (fun r => r.1) h.nested
  have pushed : (m.store.functions.push c)[id]? = some f := found
  rw [Array.getElem?_push] at pushed
  split at pushed
  · cases pushed
    refine .inr fun within => spared (h.safe.2 rooted ?_).2
    rw [← here]
    exact within.of_grown h.nested grown there
  · exact .inl ⟨pushed, h.nested.closure id f pushed⟩

/-- A scope inside another one, for code that is tame if that is inside the sealed one. -/
theorem Sound.newScope (h : σ.Sound tame m) {outer : ScopeId} (there : outer < m.store.scopes.size)
    (spared : m.store.Rooted σ.scope → m.store.Within σ.scope outer → tame') :
    ∃ id m₁, EvalM.newScope (some outer) m = .ok id m₁ ∧ σ.Leads m m₁ ∧ σ.Safe tame' m₁.store id := by
  let s' := (m.store.newScope (some outer)).2
  have size : s'.scopes.size = m.store.scopes.size + 1 := Array.size_push _
  have grown : m.store.Grown s' := .pushScope _ _
  have around : (s'.scope m.store.scopes.size).enclosing = some outer :=
    congrArg Scope.enclosing (Store.scope_push_size _)
  -- something encloses the new scope, so it is not the sealed one, which is a root
  have old : s'.Rooted σ.scope → σ.scope < m.store.scopes.size := by
    intro rooted
    have low := rooted.1
    rw [size] at low
    have differs : σ.scope ≠ m.store.scopes.size := by
      intro same
      have none := rooted.2
      rw [same, around] at none
      cases none
    exact Nat.lt_of_le_of_ne (Nat.le_of_lt_succ low) differs
  have nested : s'.Nested := by
    refine h.nested.pushScope rfl fun other found => ?_
    cases found
    exact there
  refine ⟨m.store.scopes.size, { m with store := s' }, rfl, ⟨grown, nested, ?_, rfl⟩, ?_, ?_⟩
  · refine h.intact.change grown (fun _ id c found => ?_) (fun rooted => ?_) old h.nested
    · exact .inl ⟨found, h.nested.closure id c found⟩
    · exact congrArg Scope.bindings (Store.scope_push_lt _ rooted.1)
  · show m.store.scopes.size < s'.scopes.size
    rw [size]
    exact Nat.lt_succ_self _
  · intro rooted within
    have low := old rooted
    have differs : m.store.scopes.size ≠ σ.scope := Nat.ne_of_gt low
    refine ⟨differs, spared (rooted.of_grown grown low) ?_⟩
    rcases (Store.within_inside around).mp within with same | further
    · exact absurd same differs
    · exact further.of_grown h.nested grown there

/-- An import declares into a scope that is not inside the sealed one, unless it makes that very
scope. -/
theorem Sound.importTarget (h : σ.Sound False m) (setup : Setup) (space : Option Lexeme)
    (apart : space.isSome = true → m.store.scopes.size ≠ σ.scope) :
    ∃ id m₁, EvalM.importTarget setup space m = .ok id m₁ ∧ σ.Leads m m₁ ∧
      σ.Safe False m₁.store id := by
  cases space with
  | none => exact ⟨m.scope, m, rfl, h.of_shape rfl, h.safe⟩
  | some name =>
    replace apart := apart rfl
    let root := (m.store.newRoot setup.natives).2
    let s' := root.defineSpace m.scope name.text m.store.scopes.size
    have size : s'.scopes.size = m.store.scopes.size + 1 := by
      show (Array.modify _ _ _).size = _
      rw [Array.size_modify]
      exact Array.size_push _
    have rootSize : root.scopes.size = m.store.scopes.size + 1 := Array.size_push _
    have enclosing : (root.scope m.store.scopes.size).enclosing = none :=
      congrArg Scope.enclosing (Store.scope_push_size _)
    have pushed : m.store.Grown root := .pushScope _ _
    have grown : m.store.Grown s' := .trans pushed (.defineSpace root _ _ _)
    have bindings (id : ScopeId) : (s'.scope id).bindings = (root.scope id).bindings :=
      Store.bindings_defineSpace root _ _ _ id
    -- the new root is not the sealed one, which was there before if it is there at all
    have old : s'.Rooted σ.scope → σ.scope < m.store.scopes.size := by
      intro rooted
      have low := rooted.1
      rw [size] at low
      exact Nat.lt_of_le_of_ne (Nat.le_of_lt_succ low) (Ne.symm apart)
    have there : m.store.scopes.size < root.scopes.size := by
      rw [rootSize]
      exact Nat.lt_succ_self _
    have bare : root.Nested := h.nested.pushScope rfl nofun
    have nested : s'.Nested := bare.defineSpace name.text h.safe.1 there enclosing
    refine ⟨m.store.scopes.size, { m with store := s' }, rfl, ⟨grown, nested, ?_, rfl⟩, ?_, ?_⟩
    · refine h.intact.change grown (fun _ id c found => ?_) (fun rooted => ?_) old h.nested
      · exact .inl ⟨found, h.nested.closure id c found⟩
      · rw [bindings]
        exact congrArg Scope.bindings (Store.scope_push_lt _ rooted.1)
    · show m.store.scopes.size < s'.scopes.size
      rw [size]
      exact Nat.lt_succ_self _
    · intro _ within
      have none : (s'.scope m.store.scopes.size).enclosing = none :=
        (Store.scope_defineSpace root _ _ _ _).1.trans enclosing
      exact absurd (Store.within_root none within) apart

end Seal

end ContractScript
