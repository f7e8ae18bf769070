/-
Running code that is known.

Where the code of a function is known, what a call of it does is followed step by step. There is
a law for each form of code that says how it goes on from what its parts have done. What such
a run leaves behind is told at the level of stores: some lists and scopes have been added.
-/
import ContractScript.Proofs.Number.Counting
import ContractScript.Proofs.Run.Blame
import ContractScript.Proofs.Run.Lasting
import ContractScript.Proofs.Run.Returning

set_option autoImplicit false

namespace ContractScript

open EvalM

/-! ## Stores with something added -/

namespace Store

/-- Lists, maps and scopes may have been added, and nothing that was there has changed. -/
structure Adds (s s' : Store) : Prop where
  extends_ : s.Extends s'
  functions : s'.functions = s.functions
  scopes : ∀ id, id < s.scopes.size → id < s'.scopes.size ∧ s'.scope id = s.scope id

/-- A scope is there, with some content. -/
structure Shows (s : Store) (id : ScopeId) (c : Scope) : Prop where
  there : id < s.scopes.size
  content : s.scope id = c

/-- Parameters are bound to arguments. -/
def bindAll (s : Store) (id : ScopeId) : List Lexeme → List Value → Store
  | p :: ps, v :: vs => (s.define id p.text v).bindAll id ps vs
  | _, _ => s

section Adds

variable {s s₁ s' : Store} {id outer : ScopeId} {c : Scope} {name : String} {v : Value}

theorem Adds.refl (s : Store) : s.Adds s :=
  ⟨.refl s, rfl, fun _ there => ⟨there, rfl⟩⟩

theorem Adds.trans (h : s.Adds s₁) (h' : s₁.Adds s') : s.Adds s' := by
  refine ⟨h.extends_.trans h'.extends_, h'.functions.trans h.functions, fun id there => ?_⟩
  obtain ⟨there₁, same⟩ := h.scopes id there
  obtain ⟨there', same'⟩ := h'.scopes id there₁
  exact ⟨there', same'.trans same⟩

theorem Adds.newList (h : s.Adds s') (items : Array Value) : s.Adds (s'.newList items).2 :=
  h.trans ⟨extends_newList s' items, rfl, fun _ there => ⟨there, rfl⟩⟩

theorem Adds.newScope (h : s.Adds s') (outer : Option ScopeId) : s.Adds (s'.newScope outer).2 := by
  refine h.trans ⟨⟨fun _ there => ⟨there, rfl⟩, fun _ there => ⟨there, rfl⟩⟩, rfl,
    fun id there => ⟨?_, scope_push_lt _ there⟩⟩
  exact Nat.lt_of_lt_of_eq (Nat.lt_succ_of_lt there) (Array.size_push _).symm

/-- A binding in a scope that was added. -/
theorem Adds.define (h : s.Adds s') (fresh : s.scopes.size ≤ id) (name : String) (v : Value) :
    s.Adds (s'.define id name v) := by
  refine ⟨⟨h.extends_.lists, h.extends_.maps⟩, h.functions, fun i there => ?_⟩
  obtain ⟨there', same⟩ := h.scopes i there
  refine ⟨Nat.lt_of_lt_of_eq there' Array.size_modify.symm, ?_⟩
  rw [scope_define_of_ne s' (Nat.ne_of_lt (Nat.lt_of_lt_of_le there fresh)), same]

theorem Adds.bindAll (fresh : s.scopes.size ≤ id) (parameters : List Lexeme) :
    ∀ (arguments : List Value) {s' : Store}, s.Adds s' → s.Adds (s'.bindAll id parameters arguments) := by
  induction parameters with
  | nil => exact fun _ _ adds => adds
  | cons p rest ih =>
    intro arguments s' adds
    cases arguments with
    | nil => exact adds
    | cons v vs => exact ih vs (adds.define fresh _ _)

theorem Adds.shows (h : s.Adds s') (shown : s.Shows id c) : s'.Shows id c := by
  obtain ⟨there, same⟩ := h.scopes id shown.there
  exact ⟨there, same.trans shown.content⟩

theorem shows_newScope (s : Store) (outer : Option ScopeId) :
    (s.newScope outer).2.Shows s.scopes.size ⟨.empty, .empty, outer⟩ :=
  ⟨Nat.lt_of_lt_of_eq (Nat.lt_succ_self _) (Array.size_push _).symm, scope_push_size _⟩

theorem Shows.define (h : s.Shows id c) (name : String) (v : Value) :
    (s.define id name v).Shows id { c with bindings := c.bindings.insert name v } := by
  refine ⟨Nat.lt_of_lt_of_eq h.there Array.size_modify.symm, ?_⟩
  have kept := scope_of_outline (outline_define s id name v) id
  have bindings := scope_define h.there name v
  rw [← h.content]
  cases same : (s.define id name v).scope id with
  | mk b spaces enclosing =>
    rw [same] at kept bindings
    obtain ⟨spaces', enclosing'⟩ := kept
    dsimp only at spaces' enclosing' bindings
    rw [spaces', enclosing', bindings]

theorem Shows.define_of_ne (h : s.Shows id c) {other : ScopeId} (differs : id ≠ other) (name : String)
    (v : Value) : (s.define other name v).Shows id c :=
  ⟨Nat.lt_of_lt_of_eq h.there Array.size_modify.symm, (scope_define_of_ne s differs name v).trans h.content⟩

theorem Shows.value?_here (h : s.Shows id c) (bound : c.bindings.get? name = some v) :
    s.value? id name = some v := by
  refine Store.value?_here ?_
  rw [h.content]
  exact bound

/-- A name that is not bound in a scope is looked up around it. -/
theorem Shows.outward (h : s.Shows id c) (unbound : c.bindings.get? name = none)
    (around : c.enclosing = some outer) (older : outer < id) :
    s.value? id name = s.value? outer name ∧ s.owner? id name = s.owner? outer name := by
  rw [← h.content] at unbound around
  refine ⟨value?_outward unbound around older, ?_⟩
  rw [owner?, findOutward]
  unfold OrderedMap.contains
  rw [unbound, around]
  exact if_pos older

theorem Shows.owner?_here (h : s.Shows id c) (bound : c.bindings.contains name = true) :
    s.owner? id name = some id := by
  rw [owner?, findOutward, h.content, if_pos bound]

end Adds

end Store

/-! ## Expressions -/

section Steps

variable {setup : Setup} {depth : Nat} {place : Place} {m m₁ m₂ m' : Machine} {v w : Value}

theorem evaluate_binary {op : BinaryOp} {left right : Expr}
    (first : evaluate setup depth left m = .ok v m₁) (second : evaluate setup depth right m₁ = .ok w m₂) :
    evaluate setup (depth + 1) (.binary op place left right) m = op.apply depth place v w m₂ := by
  rw [evaluate]
  exact (bind_ok first).trans (bind_ok second)

theorem evaluate_index {collection key : Expr} (first : evaluate setup depth collection m = .ok v m₁)
    (second : evaluate setup depth key m₁ = .ok w m₂) :
    evaluate setup (depth + 1) (.index collection place key) m = indexValue depth place v w m₂ := by
  rw [evaluate]
  exact (bind_ok first).trans (bind_ok second)

theorem evaluate_choice {condition whenTrue whenFalse : Expr}
    (ran : evaluate setup depth condition m = .ok v m₁) :
    evaluate setup (depth + 1) (.choice condition whenTrue whenFalse) m
      = evaluate setup depth (if v.isTruthy then whenTrue else whenFalse) m₁ := by
  rw [evaluate]
  refine (bind_ok ran).trans ?_
  cases v.isTruthy <;> rfl

theorem evaluate_assign {name : Lexeme} {e : Expr} {owner : ScopeId}
    (ran : evaluate setup depth e m = .ok v m₁)
    (owned : m₁.store.owner? m₁.scope name.text = some owner) :
    evaluate setup (depth + 1) (.assign name e) m
      = .ok v { m₁ with store := m₁.store.define owner name.text v } := by
  have assigned : EvalM.assign name v m₁
      = .ok () { m₁ with store := m₁.store.define owner name.text v } := by
    unfold EvalM.assign
    rw [get_bind, owned]
    rfl
  rw [evaluate]
  exact (bind_ok ran).trans (bind_ok assigned)

theorem evaluate_call {callee : Expr} {arguments : List Expr} {f : Value} {vs : List Value}
    (found : evaluate setup depth callee m = .ok f m₁)
    (passed : values (evaluate setup depth) arguments m₁ = .ok vs m₂) :
    evaluate setup (depth + 1) (.call callee place arguments) m = callValue setup depth place f vs m₂ := by
  rw [evaluate]
  exact (bind_ok found).trans (bind_ok passed)

/-- Names with values are evaluated one after another. -/
theorem values_variables (setup : Setup) (depth : Nat) {names : List Lexeme} {vs : List Value}
    (found : List.Forall₂ (fun name v => m.store.value? m.scope name.text = some v) names vs) :
    values (evaluate setup (depth + 1)) (names.map .variable) m = .ok vs m := by
  induction found with
  | nil => rfl
  | cons first _ ih => exact values_cons (evaluate_variable setup depth first) ih

/-- The call of a built-in function that succeeds. -/
theorem callValue_native {f : Native} {vs : List Value} (fits : vs.length = f.arity)
    (home : m'.frames = m.frames)
    (ran : f.call setup depth vs { m with frames := ⟨f.name, place⟩ :: m.frames }
      = .ok v { m' with frames := ⟨f.name, place⟩ :: m.frames }) :
    callValue setup (depth + 2) place (.native f) vs m = .ok v m' := by
  have invoked : invoke setup (depth + 1) (.native f) vs { m with frames := ⟨f.name, place⟩ :: m.frames }
      = .ok v { m' with frames := ⟨f.name, place⟩ :: m.frames } := by
    rw [invoke]
    exact ran
  rw [callValue_succ, get_bind]
  show (if vs.length != f.arity then _ else inCall ⟨f.name, place⟩ (closeLexeme place) _) m = _
  rw [if_neg (by simpa using fits)]
  unfold inCall
  dsimp only
  rw [invoked, ← home]

/-- The element of a list at a position that is there. -/
theorem indexValue_list {id : ListId} {j : Nat} (inside : j < (m.store.items id).size)
    (small : j < 2 ^ 53) :
    indexValue depth place (.list id) (.num (Number.ofInt j)) m
      = .ok ((m.store.items id).getD j .nil) m := by
  have position : positionIn place (m.store.items id).size (.num (Number.ofInt j)) m = .ok j m := by
    have subscript : subscriptOf place (.num (Number.ofInt j)) m = .ok (j : Int) m := by
      unfold subscriptOf
      dsimp only
      rw [Number.whole?_ofInt small]
      rfl
    unfold positionIn
    rw [bind_ok subscript, if_pos (by simpa using inside)]
    rfl
  unfold indexValue
  dsimp only
  rw [get_bind]
  exact bind_ok position

/-! ## Statements -/

theorem execute_expression {e : Expr} (ran : evaluate setup depth e m = .ok v m') :
    execute setup (depth + 1) (.expression e) m = .ok .next m' := by
  rw [execute]
  exact bind_ok ran

theorem execute_var {name : Lexeme} {e : Expr} (ran : evaluate setup depth e m = .ok v m') :
    execute setup (depth + 1) (.var name (some e)) m
      = .ok .next { m' with store := m'.store.define m'.scope name.text v } := by
  rw [execute]
  exact bind_ok ran

theorem execute_yield {e : Expr} (ran : evaluate setup depth e m = .ok v m') :
    execute setup (depth + 1) (.yield place (some e)) m = .ok (.yield v) m' := by
  rw [execute]
  exact bind_ok ran

theorem execute_branch {condition : Expr} {s : Stmt} (ran : evaluate setup depth condition m = .ok v m₁) :
    execute setup (depth + 1) (.branch condition s none) m
      = if v.isTruthy then execute setup depth s m₁ else .ok .next m₁ := by
  rw [execute]
  refine (bind_ok ran).trans ?_
  cases v.isTruthy <;> rfl

theorem execute_block {body : List Stmt} {signal : Signal}
    (ran : sequence (execute setup depth) body
      { m with store := (m.store.newScope (some m.scope)).2, scope := m.store.scopes.size } = .ok signal m') :
    execute setup (depth + 1) (.block body) m = .ok signal { m' with scope := m.scope } := by
  have made : newScope (some m.scope) m
      = .ok m.store.scopes.size { m with store := (m.store.newScope (some m.scope)).2 } := rfl
  have entered : inScope m.store.scopes.size (sequence (execute setup depth) body)
      { m with store := (m.store.newScope (some m.scope)).2 } = .ok signal { m' with scope := m.scope } :=
    inScope_ok ran
  rw [execute, get_bind]
  exact (bind_ok made).trans entered

theorem sequence_next {run : Stmt → EvalM Signal} {s : Stmt} {rest : List Stmt}
    (ran : run s m = .ok .next m') : EvalM.sequence run (s :: rest) m = EvalM.sequence run rest m' := by
  rw [EvalM.sequence]
  exact bind_ok ran

theorem sequence_yield {run : Stmt → EvalM Signal} {s : Stmt} {rest : List Stmt}
    (ran : run s m = .ok (.yield v) m') : EvalM.sequence run (s :: rest) m = .ok (.yield v) m' :=
  sequence_stops .first ran Signal.noConfusion

section Iterate

variable {condition : EvalM Bool} {body : EvalM Signal} {rounds : Nat}

theorem iterate_stops (ran : condition m = .ok false m') :
    EvalM.iterate condition body (rounds + 1) m = .ok .next m' := by
  rw [EvalM.iterate]
  exact bind_ok ran

theorem iterate_next (goes : condition m = .ok true m₁) (ran : body m₁ = .ok .next m₂) :
    EvalM.iterate condition body (rounds + 1) m = EvalM.iterate condition body rounds m₂ := by
  rw [EvalM.iterate]
  exact (bind_ok goes).trans (bind_ok ran)

theorem iterate_yield (goes : condition m = .ok true m₁) (ran : body m₁ = .ok (.yield v) m') :
    EvalM.iterate condition body (rounds + 1) m = .ok (.yield v) m' := by
  rw [EvalM.iterate]
  exact (bind_ok goes).trans (bind_ok ran)

end Iterate

theorem execute_loop {condition : Expr} {body : Stmt} :
    execute setup (depth + 1) (.loop condition body) m
      = EvalM.iterate (return (← evaluate setup depth condition).isTruthy) (execute setup depth body)
          setup.limits.rounds m := by
  rw [execute]

/-! ## Calls -/

theorem bind_eq (id : ScopeId) (parameters : List Lexeme) : ∀ (vs : List Value) (m : Machine),
    EvalM.bind id parameters vs m = .ok () { m with store := m.store.bindAll id parameters vs } := by
  induction parameters with
  | nil => exact fun _ _ => rfl
  | cons p rest ih =>
    intro vs m
    cases vs with
    | nil => rfl
    | cons v vs => exact (bind_ok rfl).trans (ih vs _)

/-- The state in which the body of a function starts. -/
def Machine.entered (m : Machine) (place : Place) (c : Closure) (arguments : List Value) : Machine :=
  { m with
    store := (m.store.newScope (some c.scope)).2.bindAll m.store.scopes.size c.signature.parameters
      arguments
    scope := m.store.scopes.size
    frames := ⟨c.signature.name.text, place⟩ :: m.frames }

/-- Entering a function adds its scope. -/
theorem Machine.adds_entered (m : Machine) (place : Place) (c : Closure) (arguments : List Value) :
    m.store.Adds (m.entered place c arguments).store :=
  ((Store.Adds.refl m.store).newScope _).bindAll (Nat.le_refl _) _ _

/-- A call of a function without postconditions whose preconditions hold and whose body ends. -/
theorem callValue_of_admitted {id : FunctionId} {c : Closure} {arguments : List Value} {signal : Signal}
    (found : m.store.closure? id = some c) (after : c.signature.after.conditions = [])
    (fits : arguments.length = c.signature.parameters.length)
    (admitted : allHold (evaluate setup depth) c.signature.before.conditions (m.entered place c arguments)
      = .ok true (m.entered place c arguments))
    (ran : EvalM.sequence (execute setup depth) c.body (m.entered place c arguments) = .ok signal m') :
    callValue setup (depth + 2) place (.function id) arguments m = .ok signal.result
      { m' with
        store := m'.store.define m.store.scopes.size "result" signal.result
        scope := m.scope
        frames := m.frames } := by
  have entered : inScope m.store.scopes.size
      (allHold (evaluate setup depth) c.signature.before.conditions)
      { m.entered place c arguments with scope := m.scope }
      = .ok true { m.entered place c arguments with scope := m.scope } := inScope_ok admitted
  have ends : (Activation.called depth place id arguments c m).EndsBody setup m.store.scopes.size
      signal m' := .intro found rfl (bind_eq _ _ _ _) entered ran
  exact ends.returns after fits

/-- A call of a function without contracts whose body ends. -/
theorem callValue_of_body {id : FunctionId} {c : Closure} {arguments : List Value} {signal : Signal}
    (found : m.store.closure? id = some c) (before : c.signature.before.conditions = [])
    (after : c.signature.after.conditions = [])
    (fits : arguments.length = c.signature.parameters.length)
    (ran : EvalM.sequence (execute setup depth) c.body (m.entered place c arguments) = .ok signal m') :
    callValue setup (depth + 2) place (.function id) arguments m = .ok signal.result
      { m' with
        store := m'.store.define m.store.scopes.size "result" signal.result
        scope := m.scope
        frames := m.frames } := by
  refine callValue_of_admitted found after fits ?_ ran
  rw [before]
  rfl

/-- A call that a precondition refuses has bound the parameters and done nothing else. -/
theorem callValue_refused {id : FunctionId} {c : Closure} {arguments : List Value}
    (found : m.store.closure? id = some c)
    (fits : arguments.length = c.signature.parameters.length)
    (refused : allHold (evaluate setup depth) c.signature.before.conditions (m.entered place c arguments)
      = .ok false (m.entered place c arguments)) :
    callValue setup (depth + 2) place (.function id) arguments m
      = .error (.fault ⟨.precondition c.signature.before.message, some (closeLexeme place),
          some (⟨c.signature.name.text, place⟩ :: m.frames).reverse⟩)
        { m with store := (m.entered place c arguments).store } := by
  have made : newScope (some c.scope) { m with frames := ⟨c.signature.name.text, place⟩ :: m.frames }
      = .ok m.store.scopes.size
        { m with
          store := (m.store.newScope (some c.scope)).2
          frames := ⟨c.signature.name.text, place⟩ :: m.frames } := rfl
  -- the conditions are evaluated in the scope of the call, which is then left
  have entered : inScope m.store.scopes.size
      (allHold (evaluate setup depth) c.signature.before.conditions)
      { m.entered place c arguments with scope := m.scope }
      = .ok false { m.entered place c arguments with scope := m.scope } := inScope_ok refused
  have invoked : invoke setup (depth + 1) (.function id) arguments
      { m with frames := ⟨c.signature.name.text, place⟩ :: m.frames }
      = .error (.unlocated (.precondition c.signature.before.message))
        { m.entered place c arguments with scope := m.scope } := by
    rw [invoke, get_bind, show { m with frames := _ : Machine }.store.closure? id = some c from found]
    refine (bind_ok made).trans ((bind_ok (bind_eq _ _ _ _)).trans ((bind_ok entered).trans ?_))
    rfl
  rw [callValue_function _ _ _ _ found, if_pos fits]
  unfold inCall
  dsimp only
  rw [invoked]
  rfl

/-! ## Running out of levels

Where a comparison fails for want of levels, so does the code around it, up to the call in which it
happens. -/

section Fails

variable {e : Failure}

theorem execute_block_error {body : List Stmt} (failed : sequence (execute setup depth) body
      { m with store := (m.store.newScope (some m.scope)).2, scope := m.store.scopes.size } = .error e m') :
    execute setup (depth + 1) (.block body) m = .error e { m' with scope := m.scope } := by
  have made : newScope (some m.scope) m
      = .ok m.store.scopes.size { m with store := (m.store.newScope (some m.scope)).2 } := rfl
  have entered : inScope m.store.scopes.size (sequence (execute setup depth) body)
      { m with store := (m.store.newScope (some m.scope)).2 } = .error e { m' with scope := m.scope } :=
    inScope_error failed
  rw [execute, get_bind]
  exact (bind_ok made).trans entered

theorem sequence_error {run : Stmt → EvalM Signal} {s : Stmt} {rest : List Stmt}
    (failed : run s m = .error e m') : EvalM.sequence run (s :: rest) m = .error e m' := by
  rw [EvalM.sequence]
  exact bind_error failed

theorem iterate_error {condition : EvalM Bool} {body : EvalM Signal} {rounds : Nat}
    (goes : condition m = .ok true m₁) (failed : body m₁ = .error e m') :
    EvalM.iterate condition body (rounds + 1) m = .error e m' := by
  rw [EvalM.iterate]
  exact (bind_ok goes).trans (bind_error failed)

theorem execute_branch_error {condition : Expr} {s : Stmt}
    (failed : evaluate setup depth condition m = .error e m') :
    execute setup (depth + 1) (.branch condition s none) m = .error e m' := by
  rw [execute]
  exact bind_error failed

/-- A call of a function without contracts whose body runs out of levels. -/
theorem callValue_overflows {id : FunctionId} {c : Closure} {arguments : List Value}
    (found : m.store.closure? id = some c) (before : c.signature.before.conditions = [])
    (fits : arguments.length = c.signature.parameters.length)
    (failed : EvalM.sequence (execute setup depth) c.body (m.entered place c arguments)
      = .error (.defect .tooDeep) m') :
    ∃ m'', callValue setup (depth + 2) place (.function id) arguments m
      = .error (.fault ⟨.stackOverflow, some (closeLexeme place),
          some (⟨c.signature.name.text, place⟩ :: m.frames).reverse⟩) m'' := by
  have made : newScope (some c.scope) { m with frames := ⟨c.signature.name.text, place⟩ :: m.frames }
      = .ok m.store.scopes.size
        { m with
          store := (m.store.newScope (some c.scope)).2
          frames := ⟨c.signature.name.text, place⟩ :: m.frames } := rfl
  have entered : inScope m.store.scopes.size
      (allHold (evaluate setup depth) c.signature.before.conditions)
      { m.entered place c arguments with scope := m.scope }
      = .ok true { m.entered place c arguments with scope := m.scope } := by
    rw [before]
    exact inScope_ok rfl
  have stops : inScope m.store.scopes.size (EvalM.sequence (execute setup depth) c.body)
      { m.entered place c arguments with scope := m.scope }
      = .error (.defect .tooDeep) { m' with scope := m.scope } := inScope_error failed
  have invoked : invoke setup (depth + 1) (.function id) arguments
      { m with frames := ⟨c.signature.name.text, place⟩ :: m.frames }
      = .error (.defect .tooDeep) { m' with scope := m.scope } := by
    rw [invoke, get_bind, show { m with frames := _ : Machine }.store.closure? id = some c from found]
    exact (bind_ok made).trans ((bind_ok (bind_eq _ _ _ _)).trans ((bind_ok entered).trans
      (bind_error stops)))
  -- the call turns the want of levels into a fault
  rw [callValue_function _ _ _ _ found, if_pos fits]
  unfold inCall
  dsimp only
  rw [invoked]
  exact ⟨_, rfl⟩

end Fails

end Steps

end ContractScript
