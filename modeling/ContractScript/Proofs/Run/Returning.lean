/-
What a call leaves behind when it returns.

The scope of a call outlives the call if a function that was declared in it does. Once the
body has ended, a call still does one thing to its scope: it binds the name `result` there
to the value that is returned, for the postcondition to speak about, and it does so whether
or not there is a postcondition. Apart from this a call without postconditions leaves the
store as its body left it. So a function that was declared in the call sees every other
name as it did when the body ended, and sees `result` differently if it looks as far as the
scope of the call.

Where a name is looked up is a chain of scopes, which a binding does not change. What a
binding can change is thus told scope by scope.
-/
import ContractScript.Proofs.Run.Nesting
import ContractScript.Proofs.Run.RoundTrip
import ContractScript.Proofs.Run.Signals

set_option autoImplicit false

namespace ContractScript

open EvalM

namespace Store

/-! ## Looking up a name -/

theorem value?_here {s : Store} {id : ScopeId} {name : String} {v : Value}
    (bound : (s.scope id).bindings.get? name = some v) : s.value? id name = some v := by
  rw [value?, findOutward, bound]

theorem value?_outward {s : Store} {id outer : ScopeId} {name : String}
    (unbound : (s.scope id).bindings.get? name = none) (around : (s.scope id).enclosing = some outer)
    (older : outer < id) : s.value? id name = s.value? outer name := by
  rw [value?, findOutward, unbound, around]
  exact if_pos older

/-! ## Binding one name -/

theorem scope_define_of_ne (s : Store) {id i : ScopeId} (other : i ≠ id) (name : String) (v : Value) :
    (s.define id name v).scope i = s.scope i := by
  unfold scope define
  rw [Array.getD_eq_getD_getElem?, Array.getD_eq_getD_getElem?, Array.getElem?_modify,
    if_neg (Ne.symm other)]

/-- Names mean the same in two stores, but for one name where it is looked up through one scope. -/
structure AgreesBut (s s' : Store) (scope : ScopeId) (name : String) : Prop where
  /-- Other names have the same values and belong to the same scopes. -/
  names : ∀ id other, other ≠ name →
    s'.value? id other = s.value? id other ∧ s'.owner? id other = s.owner? id other
  /-- So has every name where the one scope is not passed. -/
  outside : ∀ id path, s.Chain id path → scope ∉ path → ∀ other,
    s'.value? id other = s.value? id other ∧ s'.owner? id other = s.owner? id other
  /-- Namespaces lead to the same scopes. -/
  spaces : ∀ id path, s'.spaceOf id path = s.spaceOf id path

section Define

variable {s : Store} {id i : ScopeId} {name other : String} {v : Value}

theorem get?_define (differs : other ≠ name) (inside : id < s.scopes.size) :
    ((s.define id name v).scope i).bindings.get? other = (s.scope i).bindings.get? other := by
  by_cases same : i = id
  · subst same
    rw [scope_define inside, OrderedMap.get?_insert, if_neg (by simpa using differs)]
  · rw [scope_define_of_ne s same]

theorem Chain.define {path : List ScopeId} (h : s.Chain i path) : (s.define id name v).Chain i path := by
  have around (j : ScopeId) : ((s.define id name v).scope j).enclosing = (s.scope j).enclosing :=
    (scope_of_outline (outline_define s id name v) j).2
  induction h with
  | root last =>
    rw [← around] at last
    exact .root last
  | inside outer _ ih =>
    rw [← around] at outer
    exact .inside outer ih

variable (nested : s.Nested)
include nested

/-- A lookup that asks the scopes of a chain the same questions has the same answer. -/
theorem Chain.findOutward_define {α : Type} {ask : ScopeId → Scope → Option α}
    {path : List ScopeId} (chain : s.Chain i path)
    (same : ∀ j ∈ path, ask j ((s.define id name v).scope j) = ask j (s.scope j)) :
    (s.define id name v).findOutward ask i = s.findOutward ask i := by
  have nested' : (s.define id name v).Nested := nested.of_outline (outline_define s id name v)
  rw [chain.findOutward nested, chain.define.findOutward nested', ← List.head?_filterMap,
    ← List.head?_filterMap, List.filterMap_congr same]

theorem Chain.lookup_define {path : List ScopeId} (chain : s.Chain i path)
    (same : ∀ j ∈ path, ((s.define id name v).scope j).bindings.get? other
      = (s.scope j).bindings.get? other) :
    (s.define id name v).value? i other = s.value? i other ∧
      (s.define id name v).owner? i other = s.owner? i other := by
  refine ⟨chain.findOutward_define nested same, chain.findOutward_define nested fun j member => ?_⟩
  unfold OrderedMap.contains
  rw [same j member]

theorem spaceOf_define (spaces : List Lexeme) : ∀ i : ScopeId,
    (s.define id name v).spaceOf i spaces = s.spaceOf i spaces := by
  induction spaces with
  | nil => exact fun _ => rfl
  | cons space rest ih =>
    intro i
    obtain ⟨path, chain⟩ := nested.chain i
    have found : (s.define id name v).space? i space.text = s.space? i space.text := by
      refine chain.findOutward_define nested fun j _ => ?_
      rw [(scope_of_outline (outline_define s id name v) j).1]
    rw [spaceOf, spaceOf, found]
    cases s.space? i space.text with
    | none => rfl
    | some next => exact ih next

/-- Binding a name changes what that name means, from inside the scope where it is bound. -/
theorem Nested.agreesBut_define (inside : id < s.scopes.size) (name : String) (v : Value) :
    s.AgreesBut (s.define id name v) id name where
  names i other differs := by
    obtain ⟨path, chain⟩ := nested.chain i
    exact chain.lookup_define nested fun _ _ => get?_define differs inside
  outside i path chain missing other := by
    refine chain.lookup_define nested fun j member => ?_
    have differs : j ≠ id := fun same => missing (same ▸ member)
    rw [scope_define_of_ne s differs]
  spaces i path := spaceOf_define nested path i

end Define

end Store

/-! ## The end of a body -/

/-- A call makes a scope, binds its parameters there and runs the body of its function, which ends
with a signal in some state. -/
inductive Activation.EndsBody (setup : Setup) (a : Activation) : ScopeId → Signal → Machine → Prop
  | intro {scope : ScopeId} {signal : Signal} {m₁ m₂ m₃ ended : Machine}
      (found : a.machine.store.closure? a.id = some a.closure)
      (made : newScope (some a.closure.scope) a.machine = .ok scope m₁)
      (bound : bind scope a.closure.signature.parameters a.arguments m₁ = .ok () m₂)
      (admitted : inScope scope
        (allHold (evaluate setup a.depth) a.closure.signature.before.conditions) m₂ = .ok true m₃)
      (ran : sequence (execute setup a.depth) a.closure.body { m₃ with scope := scope }
        = .ok signal ended) : a.EndsBody setup scope signal ended

section Body

variable {setup : Setup} {a : Activation} {scope : ScopeId} {signal : Signal} {ended : Machine}

/-- After its body a call concludes with the value that the body ended with. -/
theorem Activation.EndsBody.concludes (h : a.EndsBody setup scope signal ended) :
    invoke setup (a.depth + 1) (.function a.id) a.arguments a.machine
      = a.conclude setup scope signal.result { ended with scope := a.machine.scope } := by
  cases h with
  | @intro m₁ m₂ m₃ _ found made bound admitted ran =>
    have making : m₁.surroundings = a.machine.surroundings := (Keeps.onStore _).of_ok made
    have binding : m₂.surroundings = m₁.surroundings := (Keeps.bindArguments _ _ _).of_ok bound
    have admitting : m₃.surroundings = m₂.surroundings :=
      (Keeps.inScope (.allHold (evaluationKeeps setup a.depth).evaluate _)).of_ok admitted
    have home : m₃.scope = a.machine.scope :=
      scope_of_surroundings (admitting.trans (binding.trans making))
    rw [invoke, get_bind]
    dsimp only
    rw [found]
    refine (bind_ok made).trans ((bind_ok bound).trans ((bind_ok admitted).trans ?_))
    rw [if_neg (by decide), ← home]
    exact bind_ok (inScope_ok ran)

/-- A call that returns has ended its body. -/
theorem Activation.exists_endsBody {v : Value} {m' : Machine}
    (found : a.machine.store.closure? a.id = some a.closure)
    (returned : invoke setup (a.depth + 1) (.function a.id) a.arguments a.machine = .ok v m') :
    ∃ scope signal ended, a.EndsBody setup scope signal ended := by
  rw [invoke, get_bind] at returned
  dsimp only at returned
  rw [found] at returned
  obtain ⟨scope, m₁, made, returned⟩ := bind_eq_ok returned
  obtain ⟨_, m₂, bound, returned⟩ := bind_eq_ok returned
  obtain ⟨holds, m₃, admitted, returned⟩ := bind_eq_ok returned
  cases holds with
  | false =>
    rw [if_pos (by decide)] at returned
    obtain ⟨_, _, failed, -⟩ := bind_eq_ok returned
    cases failed
  | true =>
    rw [if_neg (by decide)] at returned
    obtain ⟨signal, m₄, ran, -⟩ := bind_eq_ok returned
    obtain ⟨ended, ran⟩ := inScope_eq_ok ran
    exact ⟨scope, signal, ended, .intro found made bound admitted ran⟩

/-- Without postconditions all that is left to do is to bind the result. -/
theorem Activation.conclude_of_no_conditions (none : a.closure.signature.after.conditions = [])
    (scope : ScopeId) (result : Value) (m : Machine) :
    a.conclude setup scope result m
      = .ok result { m with store := m.store.define scope "result" result } := by
  unfold Activation.conclude
  rw [none]
  rfl

/-- The scope of a call is a new one inside that of the function, and is still there when the body
ends. -/
theorem Activation.EndsBody.placed (h : a.EndsBody setup scope signal ended)
    (placed : a.machine.Placed) :
    scope = a.machine.store.scopes.size ∧ scope < ended.store.scopes.size ∧
      (ended.store.scope scope).enclosing = some a.closure.scope ∧ ended.Placed := by
  cases h with
  | @intro m₁ m₂ m₃ _ found made bound admitted ran =>
    -- the body runs in states that have at least the scope of the call
    have through := Spans.traversal (settled setup a.depth) (scope + 1)
    obtain ⟨id, m, made', before, there⟩ :=
      newScope_before placed (placed.nested.closure a.id a.closure found)
    rw [made] at made'
    cases made'
    have before₂ : m₁.Before m₂ := .of_outline before.placed ((Keeps.bindArguments _ _ _).of_ok bound)
    have there₂ := (before₂.grown.scope scope there).1
    have admits := Spans.inScope (through.conditions a.closure.signature.before.conditions)
      (Nat.lt_succ_self scope) m₂ there₂ before₂.placed
    unfold finalState at admits
    rw [admitted] at admits
    have there₃ := (admits.before.grown.scope scope there₂).1
    have entered := admits.before.placed.inScope there₃
    have runs := through.statements .body a.closure.body { m₃ with scope := scope } there₃
      entered.placed
    unfold finalState at runs
    rw [ran] at runs
    have grown := ((before₂.trans admits.before).trans entered).trans runs.before
    obtain ⟨there', around⟩ := grown.grown.scope scope there
    cases made
    refine ⟨rfl, there', around.trans ?_, grown.placed⟩
    exact congrArg Scope.enclosing (Store.scope_push_size _)

end Body

/-! ## Calls that return -/

theorem evaluate_variable (setup : Setup) (depth : Nat) {name : Lexeme} {v : Value} {m : Machine}
    (found : m.store.value? m.scope name.text = some v) :
    evaluate setup (depth + 1) (.variable name) m = .ok v m := by
  rw [evaluate, lookup, get_bind, found]
  rfl

/-- What the call of a function is once its frame is in place. -/
def Activation.called (depth : Nat) (place : Place) (id : FunctionId) (arguments : List Value)
    (c : Closure) (m : Machine) : Activation :=
  ⟨depth, id, arguments, c, { m with frames := ⟨c.signature.name.text, place⟩ :: m.frames }⟩

section Calls

variable {setup : Setup} {depth : Nat} {place : Place} {id : FunctionId} {arguments : List Value}
  {c : Closure} {m m' : Machine} {v : Value}

theorem callValue_function (setup : Setup) (depth : Nat) (place : Place) (arguments : List Value)
    (found : m.store.closure? id = some c) :
    callValue setup (depth + 1) place (.function id) arguments m
      = if arguments.length = c.signature.parameters.length then
          inCall ⟨c.signature.name.text, place⟩ (closeLexeme place)
            (invoke setup depth (.function id) arguments) m
        else failAt (closeLexeme place)
          (.wrongArity c.signature.parameters.length arguments.length) m := by
  have callable : m.store.callable? (.function id)
      = some (c.signature.name.text, c.signature.parameters.length) := by
    rw [Store.callable?, found, Option.map_some]
  rw [callValue_succ, get_bind, callable]
  dsimp only
  by_cases fits : arguments.length = c.signature.parameters.length
  · rw [if_pos fits, if_neg (by simpa using fits)]
  · rw [if_neg fits, if_pos (by simpa using fits)]

/-- A call without postconditions that has ended its body returns. -/
theorem Activation.EndsBody.returns {scope : ScopeId} {signal : Signal} {ended : Machine}
    (h : (Activation.called depth place id arguments c m).EndsBody setup scope signal ended)
    (none : c.signature.after.conditions = [])
    (fits : arguments.length = c.signature.parameters.length) :
    callValue setup (depth + 2) place (.function id) arguments m = .ok signal.result
      { ended with
        store := ended.store.define scope "result" signal.result, scope := m.scope,
        frames := m.frames } := by
  have found : m.store.closure? id = some c := by
    cases h with
    | intro found => exact found
  have concluded := h.concludes.trans (Activation.conclude_of_no_conditions none _ _ _)
  rw [callValue_function _ _ _ _ found, if_pos fits]
  unfold inCall
  dsimp only
  rw [show invoke setup (depth + 1) (.function id) arguments
    { m with frames := ⟨c.signature.name.text, place⟩ :: m.frames } = _ from concluded]
  rfl

/-- A call that returns has the right number of arguments and has ended its body. -/
theorem exists_endsBody_of_returned (found : m.store.closure? id = some c)
    (returned : callValue setup depth place (.function id) arguments m = .ok v m') :
    ∃ below scope signal ended, depth = below + 2 ∧
      arguments.length = c.signature.parameters.length ∧
      (Activation.called below place id arguments c m).EndsBody setup scope signal ended := by
  cases depth with
  | zero => cases returned
  | succ depth =>
    rw [callValue_function _ _ _ _ found] at returned
    by_cases fits : arguments.length = c.signature.parameters.length
    · rw [if_pos fits] at returned
      -- a frame around the call does not change what comes back
      obtain ⟨m₁, invoked⟩ : ∃ m₁, invoke setup depth (.function id) arguments
          { m with frames := ⟨c.signature.name.text, place⟩ :: m.frames } = .ok v m₁ := by
        unfold inCall at returned
        dsimp only at returned
        split at returned
        · rename_i invoked
          cases returned
          exact ⟨_, invoked⟩
        · cases returned
      cases depth with
      | zero => cases invoked
      | succ below =>
        obtain ⟨scope, signal, ended, ends⟩ :=
          (Activation.called below place id arguments c m).exists_endsBody found invoked
        exact ⟨below, scope, signal, ended, rfl, fits, ends⟩
    · rw [if_neg fits] at returned
      cases returned

end Calls

/-- Returning binds `result` and disturbs nothing else. In a session a call of a function without
postconditions that returns a value leaves the scope that it made with the bindings that its body
left there, but for `result`, which is bound to the value. Every other scope, and every list, map and
function, is as the body left it. So wherever a function may have been declared, names other than
`result` mean there what they meant when the body ended, and where the scope of the call is not
passed that name does too. -/
theorem Session.returning_binds_result (setup : Setup) (host : Host)
    (scripts : List (String × Option String)) (source : String) (name : Option String) (s : Stmt)
    (m : Machine) (begins : ((Session.new setup host).after scripts).Begins source name s m)
    (links : List Link) (depth : Nat) (place : Place) (id : FunctionId) (arguments : List Value)
    (m₀ : Machine) (trail : Trail setup (.top setup s m) links
      ⟨depth, .call place (.function id) arguments, m₀⟩)
    (c : Closure) (found : m₀.store.closure? id = some c) (none : c.signature.after.conditions = [])
    (v : Value) (m' : Machine)
    (returned : callValue setup depth place (.function id) arguments m₀ = .ok v m') :
    ∃ below scope signal ended, depth = below + 2 ∧
      (Activation.called below place id arguments c m₀).EndsBody setup scope signal ended ∧
      v = signal.result ∧ scope = m₀.store.scopes.size ∧
      (m'.store.scope scope).bindings = (ended.store.scope scope).bindings.insert "result" v ∧
      (m'.store.scope scope).spaces = (ended.store.scope scope).spaces ∧
      (m'.store.scope scope).enclosing = some c.scope ∧
      (∀ other, other ≠ scope → m'.store.scope other = ended.store.scope other) ∧
      m'.store.lists = ended.store.lists ∧ m'.store.maps = ended.store.maps ∧
      m'.store.functions = ended.store.functions ∧
      ended.store.AgreesBut m'.store scope "result" ∧ m'.store.value? scope "result" = some v := by
  have placed : m₀.Placed := by
    obtain ⟨first, -⟩ := begins.within (Session.placed_after (Session.placed_new setup host) scripts)
    exact (trail.within first.placed).1.placed
  obtain ⟨below, scope, signal, ended, levels, fits, ends⟩ := exists_endsBody_of_returned found returned
  obtain ⟨fresh, there, around, settled⟩ := ends.placed ⟨placed.nested, placed.scope⟩
  rw [levels, ends.returns none fits] at returned
  cases returned
  -- without conditions nothing runs after the body but the binding of the result
  have kept := Store.scope_of_outline (Store.outline_define ended.store scope "result" signal.result)
    scope
  refine ⟨below, scope, signal, ended, levels, ends, rfl, fresh, ?_⟩
  refine ⟨Store.scope_define there _ _, kept.1, kept.2.trans around, ?_, rfl, rfl, rfl, ?_, ?_⟩
  · exact fun other differs => Store.scope_define_of_ne _ differs _ _
  · exact settled.nested.agreesBut_define there _ _
  · exact Store.value?_define there _ _

/-! ## A function that looks for `result` -/

/-- A function that returns a function, which looks for the name `result`; and a call of it. -/
def escapingScript : String :=
  "var result = \"outer\"; fun make() \x7b fun peek() \x7b return result; \x7d return peek; \x7d make();"

/-- The function that is called. -/
def escapingMaker : Closure :=
  ⟨⟨⟨"make", ⟨none, 1⟩⟩, [], .none, .none⟩,
    [.function ⟨⟨"peek", ⟨none, 1⟩⟩, [], .none, .none⟩
        [.yield ⟨none, 1⟩ (some (.variable ⟨"result", ⟨none, 1⟩⟩))],
      .yield ⟨none, 1⟩ (some (.variable ⟨"peek", ⟨none, 1⟩⟩))], Session.globals⟩

/-- The call is reached with the function that it means, and its body ends with the other function,
which was declared in the scope of the call. At that point `result` is not bound there, so that it
means the global. -/
theorem escaping_reached : ∃ s m links m₀ ended,
    ((Session.new (Session.standard {}) Host.bare).after []).Begins escapingScript none s m ∧
    Trail (Session.standard {}) (.top (Session.standard {}) s m) links
      ⟨999, .call ⟨none, 1⟩ (.function 0) [], m₀⟩ ∧
    m₀.store.closure? 0 = some escapingMaker ∧
    (Activation.called 997 ⟨none, 1⟩ 0 [] escapingMaker m₀).EndsBody (Session.standard {}) 1
      (.yield (.function 1)) ended ∧
    (ended.store.closure? 1).map Closure.scope = some 1 ∧
    (ended.store.scope 1).bindings.get? "result" = none ∧
    ended.store.value? 1 "result" = some (.text "outer") := by
  have read : Program.ofSource false none escapingScript
      = ([.var ⟨"result", ⟨none, 1⟩⟩ (some (.literal (.text "outer"))),
          .function escapingMaker.signature escapingMaker.body,
          .expression (.call (.variable ⟨"make", ⟨none, 1⟩⟩) ⟨none, 1⟩ [])], []) := by
    cbv
  let setup := Session.standard {}
  let m := Session.start setup Host.bare
  let before : Store := (((m.store.define 0 "result" (.text "outer")).newFunction escapingMaker).2).define 0
    "make" (.function 0)
  let inside : Machine := { m with
    store := ((before.newScope (some 0)).2.newFunction ⟨⟨⟨"peek", ⟨none, 1⟩⟩, [], .none, .none⟩,
      [.yield ⟨none, 1⟩ (some (.variable ⟨"result", ⟨none, 1⟩⟩))], 1⟩).2.define 1 "peek" (.function 1)
    scope := 1
    frames := [⟨"make", ⟨none, 1⟩⟩] }
  have begins : ((Session.new setup Host.bare).after []).Begins escapingScript none
      (.expression (.call (.variable ⟨"make", ⟨none, 1⟩⟩) ⟨none, 1⟩ [])) { m with store := before } :=
    ⟨_, read, .later rfl trivial (.later rfl trivial .first)⟩
  have callee : evaluate setup 999 (.variable ⟨"make", ⟨none, 1⟩⟩) { m with store := before }
      = .ok (.function 0) { m with store := before } :=
    evaluate_variable _ _ (Store.value?_define (by decide) _ _)
  -- the body ends with the inner function, and `result` has not been bound in its scope yet
  have yields : execute setup 997 (.yield ⟨none, 1⟩ (some (.variable ⟨"peek", ⟨none, 1⟩⟩))) inside
      = .ok (.yield (.function 1)) inside :=
    bind_ok (evaluate_variable _ _ (Store.value?_define (by decide) _ _))
  refine ⟨_, _, _, _, inside, begins, .step (.call callee rfl) .here, rfl, .intro rfl rfl rfl rfl
    (sequence_stops (.later rfl rfl .first) yields Signal.noConfusion), rfl, rfl, ?_⟩
  have outward : inside.store.value? 1 "result" = inside.store.value? 0 "result" :=
    Store.value?_outward rfl rfl Nat.zero_lt_one
  rw [outward]
  exact Store.value?_here rfl

/-- The call leaves one binding more in its scope than its body did, and with it the function that
has escaped sees `result` differently. -/
theorem Session.returning_disturbs_result : ∃ s m links m₀ ended m',
    ((Session.new (Session.standard {}) Host.bare).after []).Begins escapingScript none s m ∧
    Trail (Session.standard {}) (.top (Session.standard {}) s m) links
      ⟨999, .call ⟨none, 1⟩ (.function 0) [], m₀⟩ ∧
    m₀.store.closure? 0 = some escapingMaker ∧ escapingMaker.signature.after.conditions = [] ∧
    (Activation.called 997 ⟨none, 1⟩ 0 [] escapingMaker m₀).EndsBody (Session.standard {}) 1
      (.yield (.function 1)) ended ∧
    callValue (Session.standard {}) 999 ⟨none, 1⟩ (.function 0) [] m₀ = .ok (.function 1) m' ∧
    (m'.store.scope 1).bindings ≠ (ended.store.scope 1).bindings ∧
    (ended.store.closure? 1).map Closure.scope = some 1 ∧
    ended.store.value? 1 "result" = some (.text "outer") ∧
    m'.store.value? 1 "result" = some (.function 1) := by
  obtain ⟨s, m, links, m₀, ended, begins, trail, found, ends, declared, unbound, outer⟩ := escaping_reached
  obtain ⟨first, -⟩ := begins.within (Session.placed_after (Session.placed_new _ _) [])
  obtain ⟨nested, current⟩ := (trail.within first.placed).1.placed
  obtain ⟨-, there, -⟩ := ends.placed ⟨nested, current⟩
  refine ⟨s, m, links, m₀, ended, _, begins, trail, found, rfl, ends, ends.returns rfl rfl, ?_, declared,
    outer, Store.value?_define there _ _⟩
  -- the one scope has a binding for `result`, the other has none
  intro same
  have bound : ((ended.store.define 1 "result" (.function 1)).scope 1).bindings.get? "result"
      = some (.function 1) := by
    rw [Store.scope_define there, OrderedMap.get?_insert, if_pos (beq_self_eq_true _)]
  have same : ((ended.store.define 1 "result" (.function 1)).scope 1).bindings
      = (ended.store.scope 1).bindings := same
  rw [same, unbound] at bound
  cases bound

/-- In that call every other name keeps its meaning. -/
theorem Session.returning_binds_result_escaping : ∃ s m links m₀ v m', ∃ ended : Machine,
    ((Session.new (Session.standard {}) Host.bare).after []).Begins escapingScript none s m ∧
    Trail (Session.standard {}) (.top (Session.standard {}) s m) links
      ⟨999, .call ⟨none, 1⟩ (.function 0) [], m₀⟩ ∧
    callValue (Session.standard {}) 999 ⟨none, 1⟩ (.function 0) [] m₀ = .ok v m' ∧
    (m'.store.scope m₀.store.scopes.size).bindings
      = (ended.store.scope m₀.store.scopes.size).bindings.insert "result" v ∧
    ended.store.AgreesBut m'.store m₀.store.scopes.size "result" := by
  obtain ⟨s, m, links, m₀, ended, begins, trail, found, ends, -⟩ := escaping_reached
  obtain ⟨below, scope, signal, left, -, -, -, rfl, bindings, -, -, -, -, -, -, agrees, -⟩ :=
    Session.returning_binds_result _ _ [] _ _ _ _ begins _ _ _ _ _ _ trail _ found rfl _ _
      (ends.returns rfl rfl)
  exact ⟨s, m, links, m₀, _, _, left, begins, trail, ends.returns rfl rfl, bindings, agrees⟩

end ContractScript
