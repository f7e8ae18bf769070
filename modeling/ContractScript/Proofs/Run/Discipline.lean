/-
Disciplines: what a run may touch, and what it therefore leaves in order.

A discipline says which values a run may hold, which scopes it may work in and which
statements it may execute, and what the store, the surroundings and the test results
look like meanwhile. Its laws are about single operations on the store: what can be
read under the discipline is allowed, and writing what is allowed keeps it. The theorem
of this file is that nothing more is needed. A run that starts under a discipline stays
under it however it ends, and yields only what is allowed.

So a fact about all runs (no function value is ever malformed, no file ever vanishes,
nothing older than a certain state is reached) is proved by naming a discipline and
looking at the operations on the store one by one; evaluation is gone through once,
here.
-/
import ContractScript.Proofs.Run.Bracketing

set_option autoImplicit false

namespace ContractScript

/-- A value that refers to nothing in the store. -/
def Value.isConstant : Value → Bool
  | .nil | .bool _ | .num _ | .text _ | .native _ => true
  | .list _ | .map _ | .function _ => false

/-- Writing an entry adds no others. -/
theorem OrderedMap.forall_insert {κ ν : Type} [BEq κ] [LawfulBEq κ] {content : OrderedMap κ ν}
    {P : κ × ν → Prop} (h : ∀ e ∈ content.entries, P e) {k : κ} {v : ν} (hentry : P (k, v)) :
    ∀ e ∈ (content.insert k v).entries, P e := by
  rintro ⟨k', v'⟩ he
  have found := OrderedMap.get?_eq_some.mpr he
  rw [OrderedMap.get?_insert] at found
  split at found
  · rename_i same
    cases found
    rw [eq_of_beq same]
    exact hentry
  · exact h _ (OrderedMap.get?_eq_some.mp found)

/-- The value with which a call ends after its body. -/
def Signal.result (signal : Signal) : Value :=
  match signal with
  | .yield v => v
  | _ => .nil

/-- A module that the loaders find somewhere. -/
def Setup.Offers (setup : Setup) (source : ModuleSource) : Prop :=
  ∃ site base path, Module.load setup.loaders site base path = .ok (some source)

/-- What a run may hold, work in and execute, and the state it keeps. -/
structure Discipline (setup : Setup) where
  /-- How the store looks. -/
  store : Store → Prop
  /-- How the surroundings of the run look. -/
  host : Host → Prop
  /-- How the pending test results look. -/
  tests : List TestResult → Prop
  /-- Values that the run may hold. -/
  value : Value → Prop
  /-- Scopes that the run may work in. -/
  scope : ScopeId → Prop
  /-- Statements that the run may execute. -/
  code : Stmt → Prop
  -- what is read is allowed
  constant : ∀ v : Value, v.isConstant = true → value v
  items : ∀ s id, store s → value (.list id) → ∀ v ∈ (s.items id).toList, value v
  entries : ∀ s id, store s → value (.map id) →
    ∀ e ∈ (s.content id).entries, value e.2.key ∧ value e.2.value
  closure : ∀ s id c, store s → value (.function id) → s.closure? id = some c →
    scope c.scope ∧ ∀ t ∈ c.body, code t
  bound : ∀ s id name v, store s → scope id → s.value? id name = some v → value v
  owner : ∀ s id name o, store s → scope id → s.owner? id name = some o → scope o
  space : ∀ s id name t, store s → scope id → s.space? id name = some t → scope t
  -- what is allowed may be written
  newList : ∀ s xs, store s → (∀ v ∈ xs.toList, value v) →
    store (s.newList xs).2 ∧ value (.list (s.newList xs).1)
  newMap : ∀ s content, store s →
    (∀ e ∈ content.entries, value e.2.key ∧ value e.2.value) →
    store (s.newMap content).2 ∧ value (.map (s.newMap content).1)
  newFunction : ∀ s signature body id, store s → scope id → code (.function signature body) →
    store (s.newFunction ⟨signature, body, id⟩).2 ∧
      value (.function (s.newFunction ⟨signature, body, id⟩).1)
  newScope : ∀ s outer, store s → scope outer →
    store (s.newScope (some outer)).2 ∧ scope (s.newScope (some outer)).1
  newRoot : ∀ s, store s → store (s.newRoot setup.natives).2 ∧ scope (s.newRoot setup.natives).1
  push : ∀ s id v, store s → value (.list id) → value v → store (s.push id v)
  put : ∀ s id k e, store s → value (.map id) → value e.key → value e.value → store (s.put id k e)
  define : ∀ s id name v, store s → scope id → value v → store (s.define id name v)
  defineSpace : ∀ s id name t, store s → scope id → scope t → store (s.defineSpace id name t)
  -- parts of allowed statements are allowed, and so are modules
  block : ∀ body, code (.block body) → ∀ t ∈ body, code t
  branchTrue : ∀ condition whenTrue whenFalse,
    code (.branch condition whenTrue whenFalse) → code whenTrue
  branchFalse : ∀ condition whenTrue whenFalse,
    code (.branch condition whenTrue (some whenFalse)) → code whenFalse
  loop : ∀ condition body, code (.loop condition body) → code body
  test : ∀ name place body, code (.test name place body) → code body
  record : ∀ name place body ts r, code (.test name place body) → tests ts → tests (ts ++ [r])
  module : ∀ source, setup.Offers source →
    (Program.ofSource false (some source.name) source.source).2 = [] →
    ∀ t ∈ (Program.ofSource false (some source.name) source.source).1, code t
  -- the surroundings
  sameSite : ∀ h h', host h → h'.site = h.site → host h'
  write : ∀ h h' base path content, host h → h.write base path content = .ok h' → host h'

/-- A state under a discipline. -/
def Discipline.Holds {setup : Setup} (D : Discipline setup) (m : Machine) : Prop :=
  D.store m.store ∧ D.host m.host ∧ D.tests m.tests ∧ D.scope m.scope

/-- A signal that carries nothing but what is allowed. -/
def Discipline.Carries {setup : Setup} (D : Discipline setup) : Signal → Prop
  | .yield v => D.value v
  | .next | .leave => True

namespace EvalM

variable {α β : Type}

/-! ## Steps that keep an invariant -/

/-- From a state where an invariant holds a step ends in such a state, and its result, if it has
one, is as demanded. -/
def Ensures (inv : Machine → Prop) (post : α → Prop) (step : EvalM α) : Prop :=
  ∀ m, inv m → match step m with
    | .ok a m' => inv m' ∧ post a
    | .error _ m' => inv m'

namespace Ensures

variable {inv : Machine → Prop} {post : α → Prop} {step : EvalM α}

theorem of_ok (h : Ensures inv post step) {m m' : Machine} {a : α} (hm : inv m)
    (run : step m = .ok a m') : inv m' ∧ post a := by
  have ended := h m hm
  rw [run] at ended
  exact ended

theorem of_error (h : Ensures inv post step) {m m' : Machine} {e : Failure} (hm : inv m)
    (run : step m = .error e m') : inv m' := by
  have ended := h m hm
  rw [run] at ended
  exact ended

/-- An invariant that holds at the start holds at the end. -/
theorem finalState (h : Ensures inv post step) {m : Machine} (hm : inv m) :
    inv (EvalM.finalState step m) := by
  unfold EvalM.finalState
  cases run : step m with
  | ok a m' => exact (h.of_ok hm run).1
  | error e m' => exact h.of_error hm run

theorem pure {a : α} (h : post a) : Ensures inv post (pure a : EvalM α) :=
  fun _ hm => ⟨hm, h⟩

theorem throw (e : Failure) : Ensures inv post (throw e : EvalM α) :=
  fun _ hm => hm

theorem bind {Q : α → Prop} {post' : β → Prop} {f : α → EvalM β} (hx : Ensures inv Q step)
    (hf : ∀ a, Q a → Ensures inv post' (f a)) : Ensures inv post' (step >>= f) := by
  intro m hm
  show match EStateM.bind step f m with
    | .ok a m' => inv m' ∧ post' a
    | .error _ m' => inv m'
  unfold EStateM.bind
  cases run : step m with
  | ok a m' =>
    have first := hx.of_ok hm run
    exact hf a first.2 m' first.1
  | error e m' => exact hx.of_error hm run

/-- The state that a step looks at is one where the invariant holds. -/
theorem get : Ensures inv inv (get : EvalM Machine) :=
  fun _ hm => ⟨hm, hm⟩

/-- A step that goes on from the very state it looked at. -/
theorem getThen {f : Machine → EvalM α} (h : ∀ m, inv m → match f m m with
      | .ok a m' => inv m' ∧ post a
      | .error _ m' => inv m') :
    Ensures inv post ((MonadState.get : EvalM Machine) >>= f) :=
  h

theorem set {m : Machine} (h : inv m) : Ensures inv (fun _ => True) (set m : EvalM PUnit) :=
  fun _ _ => ⟨h, trivial⟩

theorem modify {f : Machine → Machine} (h : ∀ m, inv m → inv (f m)) :
    Ensures inv (fun _ => True) (modify f : EvalM Unit) :=
  fun m hm => ⟨h m hm, trivial⟩

theorem modifyGet {f : Machine → α × Machine} (h : ∀ m, inv m → inv (f m).2 ∧ post (f m).1) :
    Ensures inv post (modifyGet f : EvalM α) :=
  fun m hm => h m hm

/-- A step that fails first if something is wrong. -/
theorem orFail {wrong : Bool} {cause : Cause} {next : EvalM α} (h : Ensures inv post next) :
    Ensures inv post (if wrong then failHere cause >>= fun _ : Unit => next else next) := by
  split
  · exact bind (Q := fun _ => True) (throw _) fun _ _ => h
  · exact h

theorem catchFault (h : Ensures inv post step) :
    Ensures inv (fun _ => True) (EvalM.catchFault step) := by
  intro m hm
  unfold EvalM.catchFault
  cases run : step m with
  | ok a m' => exact ⟨(h.of_ok hm run).1, trivial⟩
  | error e m' =>
    cases e with
    | fault f => exact ⟨h.of_error hm run, trivial⟩
    | defect d => exact h.of_error hm run
    | unfinished => exact h.of_error hm run

theorem orTooDeep (answer : Option α) : Ensures inv (fun _ => True) (orTooDeep answer) := by
  cases answer with
  | none => exact throw _
  | some a => exact pure trivial

theorem shown (depth : Nat) (v : Value) : Ensures inv (fun _ => True) (shown depth v) :=
  bind get fun _ _ => orTooDeep _

theorem same (depth : Nat) (a b : Value) : Ensures inv (fun _ => True) (same depth a b) :=
  bind get fun _ _ => orTooDeep _

theorem keyOf (depth : Nat) (v : Value) : Ensures inv (fun _ => True) (keyOf depth v) :=
  bind get fun _ _ => orTooDeep _

end Ensures

end EvalM

open EvalM

namespace Discipline

variable {setup : Setup} (D : Discipline setup) {α : Type} {post : α → Prop} {step : EvalM α}

theorem value_of_carries (signal : Signal) (h : D.Carries signal) : D.value signal.result := by
  cases signal with
  | yield v => exact h
  | next | leave => exact D.constant _ rfl

/-! ## The places that swap

What a discipline says does not depend on the calls in progress, the directory and the modules
being imported, so only a change of scope needs an argument. -/

theorem ensures_inScope {id : ScopeId} (hid : D.scope id) (h : Ensures D.Holds post step) :
    Ensures D.Holds post (inScope id step) := by
  intro m hm
  have inside : D.Holds { m with scope := id } := ⟨hm.1, hm.2.1, hm.2.2.1, hid⟩
  unfold inScope restoring
  dsimp only
  cases run : step { m with scope := id } with
  | ok a m' =>
    obtain ⟨⟨hs, hh, ht, -⟩, hpost⟩ := h.of_ok inside run
    exact ⟨⟨hs, hh, ht, hm.2.2.2⟩, hpost⟩
  | error e m' =>
    obtain ⟨hs, hh, ht, -⟩ := h.of_error inside run
    exact ⟨hs, hh, ht, hm.2.2.2⟩

theorem ensures_inCall {frame : Frame} {close : Lexeme} (h : Ensures D.Holds post step) :
    Ensures D.Holds post (inCall frame close step) := by
  intro m hm
  have inside : D.Holds { m with frames := frame :: m.frames } := hm
  unfold inCall
  dsimp only
  cases run : step { m with frames := frame :: m.frames } with
  | ok a m' =>
    have ended := h.of_ok inside run
    exact ended
  | error e m' =>
    have ended := h.of_error inside run
    exact ended

theorem ensures_inImport {name : String} (h : Ensures D.Holds post step) :
    Ensures D.Holds post (inImport name step) := by
  intro m hm
  have inside : D.Holds { m with importing := name :: m.importing } := hm
  unfold inImport restoring
  dsimp only
  cases run : step { m with importing := name :: m.importing } with
  | ok a m' =>
    have ended := h.of_ok inside run
    exact ended
  | error e m' =>
    have ended := h.of_error inside run
    exact ended

theorem ensures_asTest {name : String} {line : Nat}
    (record : ∀ ts r, D.tests ts → D.tests (ts ++ [r])) (h : Ensures D.Holds post step) :
    Ensures D.Holds (fun _ => True) (asTest name line step) := by
  refine .bind h.catchFault fun failure _ => .modify fun m hm => ?_
  exact ⟨hm.1, hm.2.1, record _ _ hm.2.2.1, hm.2.2.2⟩

/-! ## Single operations -/

theorem ensures_note (e : Event) : Ensures D.Holds (fun _ => True) (note e) :=
  .modify fun _ hm => hm

theorem ensures_trace (text : String) :
    Ensures D.Holds (fun _ => True) (trace setup text) := by
  unfold trace
  split
  · exact D.ensures_note _
  · exact .pure trivial

/-- An operation on the store alone. -/
theorem ensures_onStore {f : Store → α × Store}
    (h : ∀ s, D.store s → D.store (f s).2 ∧ post (f s).1) : Ensures D.Holds post (onStore f) := by
  refine .modifyGet fun m hm => ?_
  obtain ⟨hs, hpost⟩ := h m.store hm.1
  exact ⟨⟨hs, hm.2⟩, hpost⟩

theorem ensures_newList {xs : Array Value} (h : ∀ v ∈ xs.toList, D.value v) :
    Ensures D.Holds D.value (EvalM.newList xs) :=
  .bind (Q := fun id => D.value (.list id)) (D.ensures_onStore fun s hs => D.newList s xs hs h)
    fun _ hid => .pure hid

theorem ensures_newScope {outer : ScopeId} (h : D.scope outer) :
    Ensures D.Holds D.scope (EvalM.newScope (some outer)) :=
  D.ensures_onStore fun s hs => D.newScope s outer hs h

theorem ensures_define {id : ScopeId} {name : String} {v : Value} (hid : D.scope id)
    (hv : D.value v) : Ensures D.Holds (fun _ => True) (EvalM.define id name v) :=
  .modify fun m hm => ⟨D.define m.store id name v hm.1 hid hv, hm.2⟩

theorem ensures_defineHere {name : String} {v : Value} (hv : D.value v) :
    Ensures D.Holds (fun _ => True) (defineHere name v) :=
  .modify fun m hm => ⟨D.define m.store m.scope name v hm.1 hm.2.2.2 hv, hm.2⟩

/-! ## Operators and built-in functions -/

theorem ensures_unaryOp (op : UnaryOp) (place : Place) (v : Value) :
    Ensures D.Holds D.value (op.apply place v) := by
  unfold UnaryOp.apply
  split
  · exact .pure (D.constant _ rfl)
  · exact .pure (D.constant _ rfl)
  · exact .throw _

theorem ensures_addValues (depth : Nat) (place : Place) {a b : Value} (ha : D.value a)
    (hb : D.value b) : Ensures D.Holds D.value (addValues depth place a b) := by
  unfold addValues
  split
  · exact .pure (D.constant _ rfl)
  · exact .bind (.shown depth _) fun _ _ => .pure (D.constant _ rfl)
  · exact .bind (.shown depth _) fun _ _ => .pure (D.constant _ rfl)
  · refine .bind .get fun m hm => D.ensures_newList fun v hv => ?_
    -- the joined list has the items of both
    rw [Array.toList_append, List.mem_append] at hv
    rcases hv with hv | hv
    · exact D.items m.store _ hm.1 ha v hv
    · exact D.items m.store _ hm.1 hb v hv
  · exact .throw _

theorem ensures_onNumbers (op : BinaryOp) (place : Place) (x y : Float) :
    Ensures D.Holds D.value (op.onNumbers place x y) := by
  cases op
  case divide =>
    show Ensures _ _ (if Number.isZero y then _ else _)
    split
    · exact .throw _
    · exact .pure (D.constant _ rfl)
  case remainder =>
    show Ensures _ _ (if Number.isZero y then _ else _)
    split
    · exact .throw _
    · split
      · exact .pure (D.constant _ rfl)
      · exact .throw _
  all_goals exact .pure (D.constant _ rfl)

theorem ensures_binaryOp (op : BinaryOp) (depth : Nat) (place : Place) {a b : Value}
    (ha : D.value a) (hb : D.value b) : Ensures D.Holds D.value (op.apply depth place a b) := by
  unfold BinaryOp.apply
  split
  · exact D.ensures_addValues depth place ha hb
  · exact .bind (.same depth a b) fun _ _ => .pure (D.constant _ rfl)
  · exact .bind (.same depth a b) fun _ _ => .pure (D.constant _ rfl)
  · split
    · exact D.ensures_onNumbers op place _ _
    · exact .throw _

theorem ensures_subscriptOf (place : Place) (v : Value) :
    Ensures D.Holds (fun _ => True) (subscriptOf place v) := by
  unfold subscriptOf
  split
  · split
    · exact .pure trivial
    · exact .throw _
  · exact .throw _

theorem ensures_positionIn (place : Place) (size : Nat) (key : Value) :
    Ensures D.Holds (fun i => i < size) (positionIn place size key) := by
  refine .bind (D.ensures_subscriptOf place key) fun i _ => ?_
  split
  · rename_i inside
    rw [Bool.and_eq_true, decide_eq_true_eq, decide_eq_true_eq] at inside
    exact .pure (by omega)
  · exact .throw _

theorem ensures_indexValue (depth : Nat) (place : Place) {collection : Value} (key : Value)
    (h : D.value collection) : Ensures D.Holds D.value (indexValue depth place collection key) := by
  unfold indexValue
  split
  · rename_i id
    refine .bind .get fun m hm => .bind (D.ensures_positionIn place _ key) fun i hi => .pure ?_
    have mem : (m.store.items id).getD i .nil ∈ (m.store.items id).toList := by
      rw [Array.getD_eq_getD_getElem?, Array.getElem?_eq_getElem hi]
      exact Array.mem_toList_iff.mpr (Array.getElem_mem hi)
    exact D.items m.store id hm.1 h _ mem
  · exact .bind (D.ensures_positionIn place _ key) fun _ _ => .pure (D.constant _ rfl)
  · rename_i id
    refine .bind (.keyOf depth key) fun k _ => .bind .get fun m hm => ?_
    split
    · rename_i entry found
      exact .pure (D.entries m.store id hm.1 h _ (OrderedMap.get?_eq_some.mp found)).2
    · exact .throw _
  · exact .throw _

theorem ensures_sliceBounds (place : Place) (size : Nat) (first last : Value) :
    Ensures D.Holds (fun _ => True) (sliceBounds place size first last) := by
  refine .bind (D.ensures_subscriptOf place first) fun low _ =>
    .bind (D.ensures_subscriptOf place last) fun high _ => ?_
  split
  · exact .pure trivial
  · exact .throw _

theorem ensures_sliceValue (place : Place) {collection : Value} (first last : Value)
    (h : D.value collection) : Ensures D.Holds D.value (sliceValue place collection first last) := by
  unfold sliceValue
  split
  · rename_i id
    refine .bind .get fun m hm => .bind (D.ensures_sliceBounds place _ first last) fun ends _ =>
      D.ensures_newList fun v hv => ?_
    -- a part of a list has only items of the list
    have part : v ∈ (m.store.items id).toList := by
      rw [Array.toList_extract, List.extract_eq_take_drop] at hv
      exact List.mem_of_mem_drop (List.mem_of_mem_take hv)
    exact D.items m.store id hm.1 h v part
  · exact .bind (D.ensures_sliceBounds place _ first last) fun _ _ => .pure (D.constant _ rfl)
  · exact .throw _

theorem ensures_reject (depth : Nat) (wanted : Wanted) (v : Value) :
    Ensures D.Holds post (Native.reject depth wanted v : EvalM α) :=
  .bind (.shown depth v) fun _ _ => .throw _

theorem ensures_expectMap (depth : Nat) {v : Value} (h : D.value v) :
    Ensures D.Holds (fun id => D.value (.map id)) (Native.expectMap depth v) := by
  unfold Native.expectMap
  split
  · exact .pure h
  · exact D.ensures_reject depth _ _

theorem ensures_expectText (depth : Nat) (wanted : Wanted) (v : Value) :
    Ensures D.Holds (fun _ => True) (Native.expectText depth wanted v) := by
  unfold Native.expectText
  split
  · exact .pure trivial
  · exact D.ensures_reject depth _ _

theorem ensures_fileProblem (cause : String → Cause) (problem : FileTree.Problem) :
    Ensures D.Holds post (Native.fileProblem cause problem : EvalM α) := by
  cases problem <;> exact .throw _

/-- What does not touch the place where modules are found is of no concern to a discipline. -/
theorem holds_host {m : Machine} {h : Host} (hm : D.Holds m) (same : h.site = m.host.site) :
    D.Holds { m with host := h } :=
  ⟨hm.1, D.sameSite _ _ hm.2.1 same, hm.2.2⟩

theorem ensures_readLine (depth : Nat) (prompt : Value) :
    Ensures D.Holds D.value (Native.readLine depth prompt) := by
  refine .bind (.shown depth prompt) fun text _ => .bind (D.ensures_note _) fun _ _ =>
    .bind .get fun m hm => ?_
  dsimp only
  split
  · exact .pure (D.constant _ rfl)
  · refine .bind (.set (D.holds_host hm rfl)) fun _ _ => ?_
    split
    · exact .pure (D.constant _ rfl)
    · exact .throw _

theorem ensures_length (depth : Nat) (v : Value) :
    Ensures D.Holds D.value (Native.length depth v) := by
  refine .bind .get fun m _ => ?_
  dsimp only
  split
  · exact .pure (D.constant _ rfl)
  · exact .pure (D.constant _ rfl)
  · exact .pure (D.constant _ rfl)
  · exact D.ensures_reject depth _ _

theorem ensures_readFile (path : String) :
    Ensures D.Holds D.value (Native.readFile setup path) := by
  refine .bind .get fun m _ => ?_
  split
  · exact .pure (D.constant _ rfl)
  · exact D.ensures_fileProblem _ _

theorem ensures_writeFile (path content : String) :
    Ensures D.Holds D.value (Native.writeFile setup path content) := by
  refine .getThen fun m hm => ?_
  cases written : m.host.write setup.settings.directory path content with
  | ok host =>
    exact ⟨⟨hm.1, D.write _ _ _ _ _ hm.2.1 written, hm.2.2⟩, D.constant _ rfl⟩
  | error problem => exact D.ensures_fileProblem _ problem m hm

theorem ensures_fetch (url : String) : Ensures D.Holds D.value (Native.fetch setup url) := by
  refine .bind .get fun m hm => ?_
  dsimp only
  refine .bind (.set (D.holds_host hm rfl)) fun _ _ => ?_
  split
  · exact .pure (D.constant _ rfl)
  · exact .throw _
  · exact .throw _
  · exact .pure (D.constant _ rfl)

/-- The keys or values of a map, as a new list. -/
theorem ensures_listOf (depth : Nat) {v : Value} (h : D.value v) (part : Entry → Value)
    (hpart : ∀ e : Entry, D.value e.key ∧ D.value e.value → D.value (part e)) :
    Ensures D.Holds D.value (Native.expectMap depth v >>= fun id => get >>= fun m =>
      EvalM.newList ((m.store.content id).values.map part).toArray) := by
  refine .bind (D.ensures_expectMap depth h) fun id hid => .bind .get fun m hm =>
    D.ensures_newList fun w hw => ?_
  obtain ⟨entry, hentry, rfl⟩ := List.mem_map.mp hw
  obtain ⟨e, he, rfl⟩ := List.mem_map.mp hentry
  exact hpart _ (D.entries m.store id hm.1 hid e he)

theorem ensures_native (depth : Nat) (f : Native) {arguments : List Value}
    (h : ∀ v ∈ arguments, D.value v) : Ensures D.Holds D.value (f.call setup depth arguments) := by
  -- what a function gives back is made of what it was given, of entries, or has no parts
  unfold Native.call
  split
  · exact D.ensures_readLine depth _
  · exact D.ensures_length depth _
  · exact .modifyGet fun m hm => ⟨D.holds_host hm rfl, D.constant _ rfl⟩
  · exact .modifyGet fun m hm => ⟨D.holds_host hm rfl, D.constant _ rfl⟩
  · exact D.ensures_listOf depth (h _ List.mem_cons_self) Entry.key fun _ he => he.1
  · exact D.ensures_listOf depth (h _ List.mem_cons_self) Entry.value fun _ he => he.2
  · rename_i target key value
    have htarget : D.value target := h _ (by simp)
    have hkey : D.value key := h _ (by simp)
    have hvalue : D.value value := h _ (by simp)
    refine .bind (D.ensures_expectMap depth htarget) fun id hid => .bind (.keyOf depth _) fun k _ =>
      .bind (.modify fun m hm => ?_) fun _ _ => .pure htarget
    exact ⟨D.put m.store id k _ hm.1 hid hkey hvalue, hm.2⟩
  · rename_i target value
    have htarget : D.value target := h _ (by simp)
    have hvalue : D.value value := h _ (by simp)
    split
    · refine .bind (.modify fun m hm => ?_) fun _ _ => .pure htarget
      exact ⟨D.push m.store _ _ hm.1 htarget hvalue, hm.2⟩
    · exact D.ensures_reject depth _ _
  · exact .bind (D.ensures_expectText depth _ _) fun _ _ => D.ensures_readFile _
  · exact .bind (D.ensures_expectText depth _ _) fun _ _ =>
      .bind (D.ensures_expectText depth _ _) fun _ _ => D.ensures_writeFile _ _
  · refine .bind (D.ensures_expectText depth _ _) fun url _ => ?_
    split
    · exact D.ensures_fetch url
    · exact D.ensures_reject depth _ _
  · exact .pure (D.constant _ rfl)

/-! ## Parts of evaluation -/

theorem ensures_lookup (name : Lexeme) : Ensures D.Holds D.value (lookup name) := by
  refine .bind .get fun m hm => ?_
  split
  · rename_i v found
    exact .pure (D.bound m.store m.scope name.text v hm.1 hm.2.2.2 found)
  · exact .throw _

/-- Namespaces lead from allowed scopes to allowed scopes. -/
theorem scope_of_spaceOf {s : Store} (hs : D.store s) (spaces : List Lexeme) :
    ∀ {id target : ScopeId}, D.scope id → s.spaceOf id spaces = .ok target → D.scope target := by
  induction spaces with
  | nil =>
    intro id target hid found
    cases found
    exact hid
  | cons name rest ih =>
    intro id target hid found
    rw [Store.spaceOf] at found
    cases hspace : s.space? id name.text with
    | none =>
      rw [hspace] at found
      cases found
    | some next =>
      rw [hspace] at found
      exact ih (D.space s id name.text next hs hid hspace) found

theorem ensures_lookupQualified (spaces : List Lexeme) (name : Lexeme) :
    Ensures D.Holds D.value (lookupQualified spaces name) := by
  refine .bind .get fun m hm => ?_
  split
  · rename_i v found
    unfold Store.qualifiedValue at found
    cases hspace : m.store.spaceOf m.scope spaces with
    | error missing =>
      rw [hspace] at found
      cases found
    | ok target =>
      have allowed := D.scope_of_spaceOf hm.1 spaces hm.2.2.2 hspace
      rw [hspace] at found
      cases hvalue : m.store.value? target name.text with
      | none => simp only [hvalue, reduceCtorEq] at found
      | some w =>
        simp only [hvalue, Except.ok.injEq] at found
        subst found
        exact .pure (D.bound m.store target name.text w hm.1 allowed hvalue)
  · exact .throw _

theorem ensures_assign (name : Lexeme) {v : Value} (h : D.value v) :
    Ensures D.Holds (fun _ => True) (assign name v) := by
  refine .bind .get fun m hm => ?_
  split
  · rename_i owner found
    exact D.ensures_define (D.owner m.store m.scope name.text owner hm.1 hm.2.2.2 found) h
  · exact .throw _

theorem ensures_iterate {condition : EvalM Bool} {body : EvalM Signal}
    (hcondition : Ensures D.Holds (fun _ => True) condition)
    (hbody : Ensures D.Holds D.Carries body) (rounds : Nat) :
    Ensures D.Holds D.Carries (iterate condition body rounds) := by
  induction rounds with
  | zero => exact .throw _
  | succ rounds ih =>
    refine .bind hcondition fun holds _ => ?_
    split
    · refine .bind hbody fun signal hsignal => ?_
      cases signal with
      | next => exact ih
      | leave => exact .pure trivial
      | yield v => exact .pure hsignal
    · exact .pure trivial

theorem ensures_sequence {run : Stmt → EvalM Signal} {body : List Stmt}
    (h : ∀ s ∈ body, Ensures D.Holds D.Carries (run s)) :
    Ensures D.Holds D.Carries (sequence run body) := by
  induction body with
  | nil => exact .pure trivial
  | cons s rest ih =>
    rw [List.forall_mem_cons] at h
    refine .bind h.1 fun signal hsignal => ?_
    cases signal with
    | next => exact ih h.2
    | leave => exact .pure trivial
    | yield v => exact .pure hsignal

theorem ensures_allHold {value : Expr → EvalM Value}
    (h : ∀ e, Ensures D.Holds D.value (value e)) (conditions : List Expr) :
    Ensures D.Holds (fun _ => True) (allHold value conditions) := by
  induction conditions with
  | nil => exact .pure trivial
  | cons e rest ih =>
    refine .bind (h e) fun v _ => ?_
    split
    · exact ih
    · exact .pure trivial

theorem ensures_values {value : Expr → EvalM Value} (h : ∀ e, Ensures D.Holds D.value (value e))
    (items : List Expr) : Ensures D.Holds (fun vs => ∀ v ∈ vs, D.value v) (values value items) := by
  induction items with
  | nil => exact .pure fun _ hv => absurd hv List.not_mem_nil
  | cons e rest ih =>
    refine .bind (h e) fun first hfirst => .bind ih fun others hothers => .pure ?_
    exact List.forall_mem_cons.mpr ⟨hfirst, hothers⟩

theorem ensures_entries {value : Expr → EvalM Value} (depth : Nat)
    (h : ∀ e, Ensures D.Holds D.value (value e)) (pairs : List (Expr × Expr)) :
    ∀ content : OrderedMap Key Entry,
      (∀ e ∈ content.entries, D.value e.2.key ∧ D.value e.2.value) →
      Ensures D.Holds (fun m : OrderedMap Key Entry =>
        ∀ e ∈ m.entries, D.value e.2.key ∧ D.value e.2.value)
        (EvalM.entries depth value content pairs) := by
  induction pairs with
  | nil => exact fun content hcontent => .pure hcontent
  | cons pair rest ih =>
    intro content hcontent
    exact .bind (h pair.1) fun _ hkey => .bind (h pair.2) fun _ hvalue =>
      .bind (.keyOf depth _) fun _ _ => ih _ (OrderedMap.forall_insert hcontent ⟨hkey, hvalue⟩)

theorem ensures_bindArguments {id : ScopeId} (hid : D.scope id) (parameters : List Lexeme) :
    ∀ {arguments : List Value}, (∀ v ∈ arguments, D.value v) →
      Ensures D.Holds (fun _ => True) (EvalM.bind id parameters arguments) := by
  induction parameters with
  | nil =>
    intro arguments _
    cases arguments <;> exact .pure trivial
  | cons p ps ih =>
    intro arguments h
    cases arguments with
    | nil => exact .pure trivial
    | cons v vs =>
      rw [List.forall_mem_cons] at h
      exact .bind (D.ensures_define hid h.1) fun _ _ => ih h.2

theorem ensures_moduleDeclarations (path : Lexeme) (pathText : String) {source : ModuleSource}
    (offered : setup.Offers source) :
    Ensures D.Holds (fun p => ∀ t ∈ p, D.code t) (moduleDeclarations path pathText source) := by
  unfold moduleDeclarations
  dsimp only
  split
  · rename_i quiet
    refine .pure fun t ht => ?_
    exact D.module source offered (List.isEmpty_iff.mp quiet) t (List.mem_filter.mp ht).1
  · exact .throw _

theorem ensures_findModule (path : Lexeme) (pathText : String) :
    Ensures D.Holds setup.Offers (findModule setup path pathText) := by
  refine .bind .get fun m _ => ?_
  split
  · exact .throw _
  · exact .throw _
  · exact .throw _
  · exact .throw _
  · next loaded =>
    split
    · exact .throw _
    · exact .pure ⟨_, _, _, loaded⟩

theorem ensures_importTarget (space : Option Lexeme) :
    Ensures D.Holds D.scope (importTarget setup space) := by
  cases space with
  | none => exact .bind .get fun m hm => .pure hm.2.2.2
  | some name =>
    refine .bind (D.ensures_onStore fun s hs => D.newRoot s hs) fun target htarget =>
      .bind (.modify fun m hm => ?_) fun _ _ => .pure htarget
    exact ⟨D.defineSpace m.store m.scope name.text target hm.1 hm.2.2.2 htarget, hm.2⟩

theorem ensures_enterDirectory (directory : Option String) :
    Ensures D.Holds (fun _ => True) (enterDirectory directory) := by
  cases directory with
  | none => exact .pure trivial
  | some dir => exact .modify fun _ hm => hm

/-! ## Evaluation -/

/-- The parts of evaluation at one number of levels. -/
structure Rules (depth : Nat) : Prop where
  evaluate : ∀ e, Ensures D.Holds D.value (evaluate setup depth e)
  callValue : ∀ place f arguments, D.value f → (∀ v ∈ arguments, D.value v) →
    Ensures D.Holds D.value (callValue setup depth place f arguments)
  invoke : ∀ f arguments, D.value f → (∀ v ∈ arguments, D.value v) →
    Ensures D.Holds D.value (invoke setup depth f arguments)
  execute : ∀ s, D.code s → Ensures D.Holds D.Carries (execute setup depth s)
  importModule : ∀ path place space,
    Ensures D.Holds (fun _ => True) (importModule setup depth path place space)

section Level

variable {D} {depth : Nat} (ih : D.Rules depth)
include ih

theorem evaluate_rules (e : Expr) : Ensures D.Holds D.value (evaluate setup (depth + 1) e) := by
  cases e with
  | literal value =>
    -- literals stand for values without parts
    refine .pure (D.constant _ ?_)
    cases value <;> rfl
  | group inner => exact ih.evaluate inner
  | «variable» name => exact D.ensures_lookup name
  | qualified spaces name => exact D.ensures_lookupQualified spaces name
  | assign name value =>
    exact .bind (ih.evaluate value) fun _ hv => .bind (D.ensures_assign name hv) fun _ _ => .pure hv
  | unary op place operand => exact .bind (ih.evaluate operand) fun _ _ => D.ensures_unaryOp op place _
  | binary op place left right =>
    exact .bind (ih.evaluate left) fun _ ha => .bind (ih.evaluate right) fun _ hb =>
      D.ensures_binaryOp op depth place ha hb
  | logical op place left right =>
    refine .bind (ih.evaluate left) fun a ha => ?_
    cases op with
    | or =>
      dsimp only
      split
      · exact .pure ha
      · exact ih.evaluate right
    | and =>
      dsimp only
      split
      · exact ih.evaluate right
      · exact .pure ha
  | choice condition whenTrue whenFalse =>
    refine .bind (ih.evaluate condition) fun c _ => ?_
    split
    · exact ih.evaluate whenTrue
    · exact ih.evaluate whenFalse
  | call callee close arguments =>
    exact .bind (ih.evaluate callee) fun _ hf => .bind (D.ensures_values ih.evaluate arguments)
      fun _ hvs => ih.callValue close _ _ hf hvs
  | list items =>
    exact .bind (D.ensures_values ih.evaluate items) fun _ hvs => D.ensures_newList hvs
  | map pairs =>
    refine .bind (D.ensures_entries depth ih.evaluate pairs .empty
      fun _ he => absurd he List.not_mem_nil) fun content hcontent =>
      .bind (Q := fun id => D.value (.map id))
        (D.ensures_onStore fun s hs => D.newMap s content hs hcontent) fun _ hid => .pure hid
  | index collection bracket key =>
    exact .bind (ih.evaluate collection) fun _ hc => .bind (ih.evaluate key) fun _ _ =>
      D.ensures_indexValue depth bracket _ hc
  | slice collection bracket first last =>
    exact .bind (ih.evaluate collection) fun _ hc => .bind (ih.evaluate first) fun _ _ =>
      .bind (ih.evaluate last) fun _ _ => D.ensures_sliceValue bracket _ _ hc

theorem callValue_rules (place : Place) (f : Value) (arguments : List Value) (hf : D.value f)
    (hargs : ∀ v ∈ arguments, D.value v) :
    Ensures D.Holds D.value (callValue setup (depth + 1) place f arguments) := by
  rw [callValue_succ]
  refine .bind .get fun m _ => ?_
  split
  · exact .throw _
  · split
    · exact .throw _
    · exact D.ensures_inCall (ih.invoke f arguments hf hargs)

theorem invoke_rules (f : Value) (arguments : List Value) (hf : D.value f)
    (hargs : ∀ v ∈ arguments, D.value v) :
    Ensures D.Holds D.value (invoke setup (depth + 1) f arguments) := by
  cases f with
  | native g => exact D.ensures_native depth g hargs
  | function id =>
    refine .bind .get fun m hm => ?_
    dsimp only
    split
    · exact .pure (D.constant _ rfl)
    · rename_i c found
      -- what the function may do was settled when it was made
      obtain ⟨hscope, hcode⟩ := D.closure m.store id c hm.1 hf found
      refine .bind (D.ensures_newScope hscope) fun scope hinner =>
        .bind (D.ensures_bindArguments hinner _ hargs) fun _ _ =>
        .bind (D.ensures_inScope hinner (D.ensures_allHold ih.evaluate _)) fun before _ => ?_
      refine .orFail (.bind (D.ensures_inScope hinner
        (D.ensures_sequence fun t ht => ih.execute t (hcode t ht))) fun signal hsignal => ?_)
      have hresult := D.value_of_carries signal hsignal
      exact .bind (D.ensures_define hinner hresult) fun _ _ =>
        .bind (D.ensures_inScope hinner (D.ensures_allHold ih.evaluate _)) fun after _ =>
          .orFail (.pure hresult)
  | _ => exact .pure (D.constant _ rfl)

theorem execute_rules (s : Stmt) (hs : D.code s) :
    Ensures D.Holds D.Carries (execute setup (depth + 1) s) := by
  cases s with
  | expression value => exact .bind (ih.evaluate value) fun _ _ => .pure trivial
  | print value =>
    exact .bind (ih.evaluate value) fun _ _ => .bind (.shown depth _) fun _ _ =>
      .bind (D.ensures_note _) fun _ _ => .pure trivial
  | var name value =>
    cases value with
    | none =>
      exact .bind (Q := D.value) (.pure (D.constant _ rfl)) fun _ hv =>
        .bind (D.ensures_defineHere hv) fun _ _ => .pure trivial
    | some e =>
      exact .bind (ih.evaluate e) fun _ hv => .bind (D.ensures_defineHere hv) fun _ _ => .pure trivial
  | block body =>
    exact .bind .get fun m hm => .bind (D.ensures_newScope hm.2.2.2) fun _ hscope =>
      D.ensures_inScope hscope (D.ensures_sequence fun t ht => ih.execute t (D.block body hs t ht))
  | branch condition whenTrue whenFalse =>
    refine .bind (ih.evaluate condition) fun c _ => ?_
    split
    · exact ih.execute whenTrue (D.branchTrue condition whenTrue whenFalse hs)
    · split
      · exact ih.execute _ (D.branchFalse condition whenTrue _ hs)
      · exact .pure trivial
  | loop condition body =>
    exact D.ensures_iterate (.bind (ih.evaluate condition) fun _ _ => .pure trivial)
      (ih.execute body (D.loop condition body hs)) _
  | leave place => exact .pure trivial
  | yield place value =>
    cases value with
    | none => exact .pure (D.constant _ rfl)
    | some e => exact .bind (ih.evaluate e) fun _ hv => .pure hv
  -- a function that is made refers to the current scope and holds code that is permitted
  | function signature body =>
    exact .bind .get fun m hm => .bind (Q := fun id => D.value (.function id))
      (D.ensures_onStore fun s hstore => D.newFunction s signature body m.scope hstore hm.2.2.2 hs)
      fun _ hid => .bind (D.ensures_defineHere hid) fun _ _ => .pure trivial
  | contract kind place clauses =>
    refine .bind (D.ensures_allHold ih.evaluate clauses.conditions) fun holds _ => ?_
    split
    · exact .pure trivial
    · cases kind with
      | assertion => exact .throw _
      | check => exact .bind (D.ensures_note _) fun _ _ => .pure trivial
  | load path place space =>
    exact .bind (ih.importModule path place space) fun _ _ => .pure trivial
  | test name place body =>
    refine .bind (D.ensures_trace _) fun _ _ => .bind .get fun m hm =>
      .bind (D.ensures_newScope hm.2.2.2) fun _ hscope => .bind (D.ensures_asTest
        (fun ts r => D.record name place body ts r hs)
        (D.ensures_inScope hscope (ih.execute body (D.test name place body hs)))) fun _ _ =>
        .pure trivial

theorem importModule_rules (path : String) (place : Place) (space : Option Lexeme) :
    Ensures D.Holds (fun _ => True) (importModule setup (depth + 1) path place space) := by
  rw [importModule_succ]
  refine .bind (D.ensures_findModule _ path) fun source offered =>
    .bind (D.ensures_trace _) fun _ _ => D.ensures_inImport ?_
  exact .bind (D.ensures_moduleDeclarations _ path offered) fun program hcode =>
    .bind (D.ensures_importTarget space) fun target htarget =>
    .bind (D.ensures_enterDirectory source.directory) fun _ _ =>
    .bind (D.ensures_inScope htarget (D.ensures_sequence fun t ht => ih.execute t (hcode t ht)))
      fun _ _ => .pure trivial

end Level

/-- Evaluation stays under every discipline. -/
theorem rules (depth : Nat) : D.Rules depth := by
  induction depth with
  | zero =>
    exact ⟨fun _ => .throw _, fun _ _ _ _ _ => .throw _, fun _ _ _ _ => .throw _,
      fun _ _ => .throw _, fun _ _ _ => .throw _⟩
  | succ depth ih =>
    exact
      { evaluate := evaluate_rules ih
        callValue := callValue_rules ih
        invoke := invoke_rules ih
        execute := execute_rules ih
        importModule := importModule_rules ih }

end Discipline

end ContractScript
