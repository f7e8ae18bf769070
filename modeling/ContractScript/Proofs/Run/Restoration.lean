/-
What a step changes for its duration is back in place when it ends.

The current scope and the directory that imports are seen from are swapped for a
while: by blocks, by the contracts of a call and by imports. A call pushes its frame
and pops the topmost one afterwards, an import adds the name of its module and
discards it afterwards. These nest in every possible way, and a step can end in a
result, a signal, a fault or a defect at any depth. One statement covers all of it: a
step keeps a view of the state if the view of the state in which it ends, however it
ends, is the view of the state in which it started. The statement is closed under
everything that evaluation is built from.

That a call pops its own frame, and that an import discards only what it has added,
is not in the two of them. The first needs that the step in between is balanced, the
second that the module was not being imported before, which finding it has checked.

Inside an import the directory does change. There the step is only known to keep
the rest, and the import itself puts the directory back.
-/
import ContractScript.Session

set_option autoImplicit false

namespace ContractScript

/-! ## Views of the state -/

/-- What holds only for the duration of a step. -/
structure Surroundings where
  /-- The current scope. -/
  scope : ScopeId
  /-- The calls in progress, innermost first. -/
  frames : List Frame
  /-- The directory that relative imports are seen from. -/
  directory : Option String
  /-- The modules being imported, innermost first. -/
  importing : List String

/-- The surroundings of a state. -/
def Machine.surroundings (m : Machine) : Surroundings :=
  ⟨m.scope, m.frames, m.directory, m.importing⟩

/-- The part of the surroundings that the body of an import keeps by itself: all but
the directory. -/
def Surroundings.standing (s : Surroundings) : ScopeId × List Frame × List String :=
  (s.scope, s.frames, s.importing)

/-- Whether a built-in function may make a list, or change a list or map. -/
def Native.isMaker : Native → Bool
  | .keys => true
  | .values => true
  | .put => true
  | .append => true
  | _ => false

namespace EvalM

variable {α β γ δ : Type}

/-- However a step ends, a view of the state is what it was. -/
def Keeps (view : Machine → γ) (step : EvalM α) : Prop :=
  ∀ m, view (finalState step m) = view m

/-- A sequence ends where its second part does, or where the first one failed. -/
theorem finalState_bind (x : EvalM α) (f : α → EvalM β) (m : Machine) :
    finalState (x >>= f) m = match x m with
      | .ok a m' => finalState (f a) m'
      | .error _ m' => m' := by
  show finalState (EStateM.bind x f) m = _
  unfold finalState EStateM.bind
  cases x m <;> rfl

/-- A fault that is caught changes nothing about where a step ends. -/
theorem finalState_catchFault (step : EvalM α) (m : Machine) :
    finalState (catchFault step) m = finalState step m := by
  unfold finalState catchFault
  cases step m with
  | ok a m' => rfl
  | error e m' => cases e <;> rfl

/-- A sequence goes on from where its first part ended. -/
theorem bind_ok {x : EvalM α} {f : α → EvalM β} {m m' : Machine} {a : α}
    (h : x m = .ok a m') : (x >>= f) m = f a m' := by
  show EStateM.bind x f m = _
  simp only [EStateM.bind, h]

/-- A step that looks at the state goes on from it. -/
theorem get_bind (f : Machine → EvalM α) (m : Machine) : ((get : EvalM Machine) >>= f) m = f m m :=
  rfl

/-- A sequence ends where its first part failed. -/
theorem bind_error {x : EvalM α} {f : α → EvalM β} {m m' : Machine} {e : Failure}
    (h : x m = .error e m') : (x >>= f) m = .error e m' := by
  show EStateM.bind x f m = _
  simp only [EStateM.bind, h]

/-- A sequence that ends well has two parts that do. -/
theorem bind_eq_ok {x : EvalM α} {f : α → EvalM β} {m m' : Machine} {b : β}
    (h : (x >>= f) m = .ok b m') : ∃ a m₁, x m = .ok a m₁ ∧ f a m₁ = .ok b m' := by
  cases run : x m with
  | ok a m₁ => exact ⟨a, m₁, rfl, (bind_ok run).symm.trans h⟩
  | error e m₁ => cases (bind_error run).symm.trans h

theorem inScope_ok {step : EvalM α} {scope : ScopeId} {a : α} {m m' : Machine}
    (ran : step { m with scope := scope } = .ok a m') :
    inScope scope step m = .ok a { m' with scope := m.scope } := by
  unfold inScope restoring
  dsimp only
  rw [ran]

theorem inScope_error {step : EvalM α} {scope : ScopeId} {e : Failure} {m m' : Machine}
    (failed : step { m with scope := scope } = .error e m') :
    inScope scope step m = .error e { m' with scope := m.scope } := by
  unfold inScope restoring
  dsimp only
  rw [failed]

namespace Keeps

variable {view : Machine → γ}

/-- A coarser view is kept too. -/
theorem coarsen {step : EvalM α} (h : Keeps view step) (f : γ → δ) :
    Keeps (fun m => f (view m)) step :=
  fun m => congrArg f (h m)

theorem pure (a : α) : Keeps view (pure a : EvalM α) :=
  fun _ => rfl

theorem throw (e : Failure) : Keeps view (throw e : EvalM α) :=
  fun _ => rfl

theorem get : Keeps view (get : EvalM Machine) :=
  fun _ => rfl

theorem modify {f : Machine → Machine} (h : ∀ m, view (f m) = view m) :
    Keeps view (modify f : EvalM Unit) :=
  h

theorem modifyGet {f : Machine → α × Machine} (h : ∀ m, view (f m).2 = view m) :
    Keeps view (modifyGet f : EvalM α) :=
  h

/-- A sequence keeps a view if its first part does and the second does from there. -/
theorem bindFrom {x : EvalM α} {f : α → EvalM β} {m : Machine}
    (first : view (finalState x m) = view m)
    (second : ∀ a m', x m = .ok a m' → view (finalState (f a) m') = view m') :
    view (finalState (x >>= f) m) = view m := by
  rw [finalState_bind]
  unfold finalState at first
  cases hr : x m with
  | ok a m' =>
    rw [hr] at first
    exact (second a m' hr).trans first
  | error e m' =>
    rw [hr] at first
    exact first

theorem bind {x : EvalM α} {f : α → EvalM β} (hx : Keeps view x) (hf : ∀ a, Keeps view (f a)) :
    Keeps view (x >>= f) :=
  fun m => bindFrom (hx m) fun a m' _ => hf a m'

/-- A step that ends well leaves the view as it was. -/
theorem of_ok {step : EvalM α} (h : Keeps view step) {m m' : Machine} {a : α}
    (ran : step m = .ok a m') : view m' = view m := by
  have kept := h m
  unfold finalState at kept
  rw [ran] at kept
  exact kept

/-- A step that fails leaves the view as it was. -/
theorem of_error {step : EvalM α} (h : Keeps view step) {m m' : Machine} {e : Failure}
    (failed : step m = .error e m') : view m' = view m := by
  have kept := h m
  unfold finalState at kept
  rw [failed] at kept
  exact kept

/-- Steps that follow and keep a view leave it as the first step has left it. -/
theorem view_bind {x : EvalM α} {f : α → EvalM β} (h : ∀ a, Keeps view (f a)) (m : Machine) :
    view (finalState (x >>= f) m) = view (finalState x m) := by
  rw [finalState_bind]
  unfold finalState
  cases x m with
  | ok a m' => exact h a m'
  | error e m' => rfl

/-- A step that depends on the state it starts in. -/
theorem getThen {f : Machine → EvalM α} (h : ∀ m, view (finalState (f m) m) = view m) :
    Keeps view ((MonadState.get : EvalM Machine) >>= f) :=
  h

/-- A step that first replaces the state by one with the same view. -/
theorem setThen {next : EvalM α} {m m' : Machine} (h : view m' = view m) (hn : Keeps view next) :
    view (finalState (set m' >>= fun _ => next) m) = view m :=
  (hn m').trans h

/-- A step that fails first if something is wrong. -/
theorem orFail {wrong : Bool} {cause : Cause} {next : EvalM α} (h : Keeps view next) :
    Keeps view (if wrong then failHere cause >>= fun _ : Unit => next else next) := by
  split
  · exact bind (throw _) fun _ => h
  · exact h

theorem catchFault {step : EvalM α} (h : Keeps view step) : Keeps view (catchFault step) := by
  intro m
  rw [finalState_catchFault]
  exact h m

end Keeps

/-! ## The places that swap -/

theorem Keeps.inScope {scope : ScopeId} {step : EvalM α} (h : Keeps Machine.surroundings step) :
    Keeps Machine.surroundings (inScope scope step) := by
  intro m
  -- only the scope is swapped, so the step has to keep the rest, and the scope comes back
  have kept := h { m with scope := scope }
  change (finalState (restoring (fun m' => { m' with scope := m.scope }) step)
    { m with scope := scope }).surroundings = m.surroundings
  rw [finalState_restoring]
  simp only [Machine.surroundings, Surroundings.mk.injEq] at kept ⊢
  exact ⟨trivial, kept.2⟩

/-- A call ends where its step does, less the topmost frame. -/
theorem finalState_asCall (frame : Frame) (close : Lexeme) (step : EvalM α) (m : Machine) :
    finalState (asCall frame close step) m
      = { finalState step { m with frames := frame :: m.frames } with
          frames := (finalState step { m with frames := frame :: m.frames }).frames.tail } := by
  unfold finalState EvalM.asCall
  dsimp only
  cases step { m with frames := frame :: m.frames } <;> rfl

/-- The frame that a call pops is its own if its step leaves the calls as it found them. -/
theorem Keeps.asCall {frame : Frame} {close : Lexeme} {step : EvalM α}
    (h : Keeps Machine.surroundings step) :
    Keeps Machine.surroundings (asCall frame close step) := by
  intro m
  have kept := h { m with frames := frame :: m.frames }
  rw [finalState_asCall]
  simp only [Machine.surroundings, Surroundings.mk.injEq] at kept ⊢
  obtain ⟨scope, frames, directory, importing⟩ := kept
  exact ⟨scope, by rw [frames, List.tail_cons], directory, importing⟩

/-- What was not among the names is discarded without a loss. -/
theorem discard_added {name : String} {names : List String} (fresh : name ∉ names) :
    (name :: names).filter (· != name) = names := by
  rw [List.filter_cons_of_neg (by simp), List.filter_eq_self]
  intro other among
  exact bne_iff_ne.mpr fun same => fresh (same ▸ among)

/-- An import ends where its step does, less the name and in the directory from before. -/
theorem finalState_asImport (name : String) (step : EvalM α) (m : Machine) :
    finalState (asImport name step) m
      = { finalState step { m with importing := name :: m.importing } with
          directory := m.directory
          importing := (finalState step { m with importing := name :: m.importing }).importing.filter
            (· != name) } :=
  finalState_restoring _ step { m with importing := name :: m.importing }

/-- An import of a module that is not being imported puts back what was there if its step keeps
all but the directory. -/
theorem surroundings_asImport {name : String} {step : EvalM α} {m : Machine}
    (fresh : name ∉ m.importing) (h : Keeps (fun m => m.surroundings.standing) step) :
    (finalState (asImport name step) m).surroundings = m.surroundings := by
  have kept := h { m with importing := name :: m.importing }
  rw [finalState_asImport]
  simp only [Machine.surroundings, Surroundings.standing, Prod.mk.injEq, Surroundings.mk.injEq]
    at kept ⊢
  obtain ⟨scope, frames, importing⟩ := kept
  exact ⟨scope, frames, trivial, by rw [importing, discard_added fresh]⟩

theorem Keeps.asTest {name : String} {line : Nat} {step : EvalM α}
    (h : Keeps Machine.surroundings step) : Keeps Machine.surroundings (asTest name line step) :=
  .bind h.catchFault fun _ => .modify fun _ => rfl

/-! ## Steps that swap nothing -/

/-- A view that shows nothing of the store, the events and the host. -/
class Sheltered (view : Machine → γ) : Prop where
  store : ∀ (m : Machine) (s : Store), view { m with store := s } = view m
  events : ∀ (m : Machine) (es : List Event), view { m with events := es } = view m
  host : ∀ (m : Machine) (h : Host), view { m with host := h } = view m

instance : Sheltered Machine.surroundings :=
  ⟨fun _ _ => rfl, fun _ _ => rfl, fun _ _ => rfl⟩

/-- A view that does not show the events. -/
class Unheard (view : Machine → γ) : Prop where
  events : ∀ (m : Machine) (es : List Event), view { m with events := es } = view m

/-- A view that shows neither what names mean nor the events. -/
class Unbound (view : Machine → γ) : Prop extends Unheard view where
  binding : ∀ (m : Machine) (scope : ScopeId) (name : String) (v : Value),
    view { m with store := m.store.define scope name v } = view m

/-- A view that shows nothing of functions and scopes and of the events. It may show what lists and
maps hold. -/
class Material (view : Machine → γ) : Prop extends Unheard view where
  code : ∀ (m : Machine) (functions : Array Closure) (scopes : Array Scope),
    view { m with store := { m.store with functions := functions, scopes := scopes } } = view m

/-- A view that shows nothing of the store and the events. It may show the host. -/
class Storeless (view : Machine → γ) : Prop where
  store : ∀ (m : Machine) (s : Store), view { m with store := s } = view m
  events : ∀ (m : Machine) (es : List Event), view { m with events := es } = view m

instance (priority := low) {view : Machine → γ} [Storeless view] : Material view where
  code m _ _ := Storeless.store m _
  events := Storeless.events

instance (priority := low) {view : Machine → γ} [Material view] : Unbound view where
  binding m scope name v := Material.code m m.store.functions (m.store.define scope name v).scopes
  events := Unheard.events

instance (priority := low) {view : Machine → γ} [Sheltered view] : Storeless view :=
  ⟨Sheltered.store, Sheltered.events⟩

/-- A view that shows nothing of what lists and maps hold and of the events. It may show what names
mean, and which functions and scopes there are. -/
class Quiet (view : Machine → γ) : Prop where
  contents : ∀ (m : Machine) (lists : Array (Array Value)) (maps : Array (OrderedMap Key Entry)),
    view { m with store := { m.store with lists := lists, maps := maps } } = view m
  events : ∀ (m : Machine) (es : List Event), view { m with events := es } = view m

/-- A quiet view that does not show what names mean either. -/
class Nameless (view : Machine → γ) : Prop extends Quiet view where
  binding : ∀ (m : Machine) (scope : ScopeId) (name : String) (v : Value),
    view { m with store := m.store.define scope name v } = view m

instance (priority := low) {view : Machine → γ} [Quiet view] : Unheard view :=
  ⟨Quiet.events⟩

instance (priority := low) {view : Machine → γ} [Nameless view] : Unbound view :=
  ⟨Nameless.binding⟩

/-- A view that shows at most the files of the host, and where it is. -/
class Sited (view : Machine → γ) : Prop extends Unheard view where
  host : ∀ (m : Machine) (h : Host), h.site = m.host.site → view { m with host := h } = view m

/-- A quiet view that shows at most the files of the host, and where it is. -/
class Located (view : Machine → γ) : Prop extends Quiet view where
  host : ∀ (m : Machine) (h : Host), h.site = m.host.site → view { m with host := h } = view m

/-- A quiet view that shows nothing of the host. -/
class Muted (view : Machine → γ) : Prop extends Quiet view where
  host : ∀ (m : Machine) (h : Host), view { m with host := h } = view m

/-- A view that shows neither the host nor what names mean. -/
class Coarse (view : Machine → γ) : Prop extends Muted view where
  binding : ∀ (m : Machine) (scope : ScopeId) (name : String) (v : Value),
    view { m with store := m.store.define scope name v } = view m

instance (priority := low) {view : Machine → γ} [Muted view] : Located view where
  host m h _ := Muted.host m h

instance (priority := low) {view : Machine → γ} [Located view] : Sited view where
  host := Located.host

instance (priority := low) {view : Machine → γ} [Coarse view] : Nameless view where
  binding := Coarse.binding

instance (priority := low) {view : Machine → γ} [Storeless view] : Nameless view where
  contents m _ _ := Storeless.store m _
  events := Storeless.events
  binding m _ _ _ := Storeless.store m _

instance (priority := low) {view : Machine → γ} [Sheltered view] : Coarse view where
  contents m _ _ := Sheltered.store m _
  binding m _ _ _ := Sheltered.store m _
  events := Sheltered.events
  host := Sheltered.host

section Sheltered

variable {view : Machine → γ}

theorem Keeps.note [Unheard view] (e : Event) : Keeps view (note e) :=
  .modify fun m => Unheard.events m _

theorem Keeps.trace [Unheard view] (setup : Setup) (text : String) :
    Keeps view (trace setup text) := by
  unfold EvalM.trace
  split
  · exact .note _
  · exact .pure ()

theorem Keeps.onStore [Storeless view] (f : Store → α × Store) : Keeps view (onStore f) :=
  .modifyGet fun m => Storeless.store m _

theorem Keeps.newScope [Material view] (enclosing : Option ScopeId) :
    Keeps view (EvalM.newScope enclosing) :=
  .modifyGet fun m => Material.code m m.store.functions _

theorem Keeps.newFunction [Material view] (c : Closure) :
    Keeps view (EvalM.onStore fun s => s.newFunction c) :=
  .modifyGet fun m => Material.code m _ m.store.scopes

theorem Keeps.define [Unbound view] (scope : ScopeId) (name : String) (v : Value) :
    Keeps view (define scope name v) :=
  .modify fun m => Unbound.binding m scope name v

theorem Keeps.defineHere [Unbound view] (name : String) (v : Value) :
    Keeps view (defineHere name v) :=
  .modify fun m => Unbound.binding m m.scope name v

theorem Keeps.newList [Quiet view] (items : Array Value) : Keeps view (newList items) :=
  .bind (.modifyGet fun m => Quiet.contents m _ m.store.maps) fun _ => .pure _

theorem Keeps.newMap [Quiet view] (content : OrderedMap Key Entry) :
    Keeps view (EvalM.onStore fun s => s.newMap content) :=
  .modifyGet fun m => Quiet.contents m m.store.lists _

theorem Keeps.orTooDeep (answer : Option α) : Keeps view (orTooDeep answer) := by
  cases answer with
  | none => exact .throw _
  | some a => exact .pure a

theorem Keeps.shown (depth : Nat) (v : Value) : Keeps view (shown depth v) :=
  .bind .get fun _ => .orTooDeep _

theorem Keeps.same (depth : Nat) (a b : Value) : Keeps view (same depth a b) :=
  .bind .get fun _ => .orTooDeep _

theorem Keeps.keyOf (depth : Nat) (v : Value) : Keeps view (keyOf depth v) :=
  .bind .get fun _ => .orTooDeep _

/-! ## Operators and built-in functions -/

theorem Keeps.unaryOp (op : UnaryOp) (place : Place) (v : Value) :
    Keeps view (op.apply place v) := by
  unfold UnaryOp.apply
  split
  · exact .pure _
  · exact .pure _
  · exact .throw _

theorem Keeps.addValues [Quiet view] (depth : Nat) (place : Place) (a b : Value) :
    Keeps view (addValues depth place a b) := by
  unfold ContractScript.addValues
  split
  · exact .pure _
  · exact .bind (.shown depth _) fun _ => .pure _
  · exact .bind (.shown depth _) fun _ => .pure _
  · exact .bind .get fun _ => .newList _
  · exact .throw _

theorem Keeps.onNumbers (op : BinaryOp) (place : Place) (x y : Float) :
    Keeps view (op.onNumbers place x y) := by
  cases op
  case divide =>
    show Keeps _ (if Number.isZero y then _ else _)
    split
    · exact .throw _
    · exact .pure _
  case remainder =>
    show Keeps _ (if Number.isZero y then _ else _)
    split
    · exact .throw _
    · split
      · exact .pure _
      · exact .throw _
  all_goals exact .pure _

/-- Only sums make anything. -/
theorem Keeps.binaryOp_of_ne {op : BinaryOp} (other : op ≠ .add) (depth : Nat) (place : Place)
    (a b : Value) : Keeps view (op.apply depth place a b) := by
  unfold BinaryOp.apply
  split
  · exact absurd rfl other
  · exact .bind (.same depth a b) fun _ => .pure _
  · exact .bind (.same depth a b) fun _ => .pure _
  · split
    · exact .onNumbers op place _ _
    · exact .throw _

theorem Keeps.binaryOp [Quiet view] (op : BinaryOp) (depth : Nat) (place : Place) (a b : Value) :
    Keeps view (op.apply depth place a b) := by
  by_cases sum : op = .add
  · subst sum
    exact .addValues depth place a b
  · exact .binaryOp_of_ne sum depth place a b

theorem Keeps.subscriptOf (place : Place) (v : Value) :
    Keeps view (subscriptOf place v) := by
  unfold ContractScript.subscriptOf
  split
  · split
    · exact .pure _
    · exact .throw _
  · exact .throw _

theorem Keeps.positionIn (place : Place) (size : Nat) (key : Value) :
    Keeps view (positionIn place size key) := by
  refine .bind (.subscriptOf place key) fun i => ?_
  split
  · exact .pure _
  · exact .throw _

theorem Keeps.indexValue (depth : Nat) (place : Place) (collection key : Value) :
    Keeps view (indexValue depth place collection key) := by
  unfold ContractScript.indexValue
  split
  · exact .bind .get fun _ => .bind (.positionIn place _ key) fun _ => .pure _
  · exact .bind (.positionIn place _ key) fun _ => .pure _
  · refine .bind (.keyOf depth key) fun k => .bind .get fun m => ?_
    split
    · exact .pure _
    · exact .throw _
  · exact .throw _

theorem Keeps.sliceBounds (place : Place) (size : Nat) (first last : Value) :
    Keeps view (sliceBounds place size first last) := by
  refine .bind (.subscriptOf place first) fun low => .bind (.subscriptOf place last) fun high => ?_
  split
  · exact .pure _
  · exact .throw _

theorem Keeps.sliceValue [Quiet view] (place : Place) (collection first last : Value) :
    Keeps view (sliceValue place collection first last) := by
  unfold ContractScript.sliceValue
  split
  · exact .bind .get fun _ => .bind (.sliceBounds place _ first last) fun _ => .newList _
  · exact .bind (.sliceBounds place _ first last) fun _ => .pure _
  · exact .throw _

theorem Keeps.reject (depth : Nat) (wanted : Wanted) (v : Value) :
    Keeps view (Native.reject depth wanted v : EvalM α) :=
  .bind (.shown depth v) fun _ => .throw _

/-- Nothing comes after a rejection. -/
theorem Keeps.rejected (depth : Nat) (wanted : Wanted) (v : Value) (next : α → EvalM β) :
    Keeps view (Native.reject depth wanted v >>= next) := by
  unfold Native.reject
  rw [bind_assoc]
  exact .bind (.shown depth v) fun _ _ => rfl

theorem Keeps.expectMap (depth : Nat) (v : Value) :
    Keeps view (Native.expectMap depth v) := by
  unfold Native.expectMap
  split
  · exact .pure _
  · exact .reject depth _ _

theorem Keeps.expectText (depth : Nat) (wanted : Wanted) (v : Value) :
    Keeps view (Native.expectText depth wanted v) := by
  unfold Native.expectText
  split
  · exact .pure _
  · exact .reject depth _ _

theorem Keeps.fileProblem (cause : String → Cause) (problem : FileTree.Problem) :
    Keeps view (Native.fileProblem cause problem : EvalM α) := by
  cases problem <;> exact .throw _

theorem Keeps.readLine [Sited view] (depth : Nat) (prompt : Value) :
    Keeps view (Native.readLine depth prompt) := by
  refine .bind (.shown depth prompt) fun text => .bind (.note _) fun _ => ?_
  refine .getThen fun m => ?_
  split
  · rfl
  · refine Keeps.setThen (Sited.host m _ rfl) ?_
    split
    · exact .pure _
    · exact .throw _

theorem Keeps.length (depth : Nat) (v : Value) :
    Keeps view (Native.length depth v) := by
  refine .bind .get fun m => ?_
  dsimp only
  split
  · exact .pure _
  · exact .pure _
  · exact .pure _
  · exact .reject depth _ _

theorem Keeps.readFile (setup : Setup) (path : String) :
    Keeps view (Native.readFile setup path) := by
  refine .bind .get fun m => ?_
  split
  · exact .pure _
  · exact .fileProblem _ _

theorem Keeps.writeFile (host : ∀ (m : Machine) (h : Host), view { m with host := h } = view m)
    (setup : Setup) (path content : String) : Keeps view (Native.writeFile setup path content) := by
  refine .bind .get fun m => ?_
  split
  · exact .bind (.modify fun m => host m _) fun _ => .pure _
  · exact .fileProblem _ _

theorem Keeps.fetch [Sited view] (setup : Setup) (url : String) :
    Keeps view (Native.fetch setup url) := by
  refine .getThen fun m => Keeps.setThen (Sited.host m _ rfl) ?_
  split
  · exact .pure _
  · exact .throw _
  · exact .throw _
  · exact .pure _

/-- A built-in function that neither makes nor changes a list or map. Only writing changes files, so a
view that shows them has to be asked about it. -/
theorem Keeps.native_plain [Sited view] (setup : Setup) (depth : Nat) {f : Native}
    (plain : f.isMaker = false) (arguments : List Value)
    (write : f = .write → ∀ path content, arguments = [.text path, .text content] →
      Keeps view (Native.writeFile setup path content)) :
    Keeps view (f.call setup depth arguments) := by
  -- the four functions that make or change something are not plain
  unfold Native.call
  split
  · exact .readLine depth _
  · exact .length depth _
  · exact .modifyGet fun m => Sited.host m _ rfl
  · exact .modifyGet fun m => Sited.host m _ rfl
  · cases plain
  · cases plain
  · cases plain
  · cases plain
  · exact .bind (.expectText depth _ _) fun _ => .readFile setup _
  · rename_i path content
    cases path with
    | text path =>
      cases content with
      | text content => exact write rfl path content rfl
      | _ => exact .bind (.expectText depth _ _) fun _ => .rejected depth _ _ _
    | _ => exact .rejected depth _ _ _
  · refine .bind (.expectText depth _ _) fun url => ?_
    split
    · exact .fetch setup url
    · exact .reject depth _ _
  · exact .pure _

theorem Keeps.native_if [Located view] (setup : Setup) (depth : Nat) (f : Native)
    (arguments : List Value)
    (write : f = .write → ∀ path content, arguments = [.text path, .text content] →
      Keeps view (Native.writeFile setup path content)) :
    Keeps view (f.call setup depth arguments) := by
  cases makes : f.isMaker with
  | false => exact .native_plain setup depth makes arguments write
  | true =>
    unfold Native.call
    split
    · cases makes
    · cases makes
    · cases makes
    · cases makes
    · exact .bind (.expectMap depth _) fun _ => .bind .get fun _ => .newList _
    · exact .bind (.expectMap depth _) fun _ => .bind .get fun _ => .newList _
    · exact .bind (.expectMap depth _) fun _ => .bind (.keyOf depth _) fun _ =>
        .bind (.modify fun m => Quiet.contents m m.store.lists _) fun _ => .pure _
    · split
      · exact .bind (.modify fun m => Quiet.contents m _ m.store.maps) fun _ => .pure _
      · exact .reject depth _ _
    · cases makes
    · cases makes
    · cases makes
    · exact .pure _

theorem Keeps.native [Muted view] (setup : Setup) (depth : Nat) (f : Native) (arguments : List Value) :
    Keeps view (f.call setup depth arguments) :=
  .native_if setup depth f arguments fun _ path content _ => .writeFile Muted.host setup path content

/-! ## Parts of evaluation -/

theorem Keeps.lookup (name : Lexeme) : Keeps view (lookup name) := by
  refine .bind .get fun m => ?_
  split
  · exact .pure _
  · exact .throw _

theorem Keeps.lookupQualified (spaces : List Lexeme) (name : Lexeme) :
    Keeps view (lookupQualified spaces name) := by
  refine .bind .get fun m => ?_
  split
  · exact .pure _
  · exact .throw _

theorem Keeps.assign [Unbound view] (name : Lexeme) (v : Value) : Keeps view (assign name v) := by
  refine .bind .get fun m => ?_
  split
  · exact .define _ _ _
  · exact .throw _

theorem Keeps.iterate {condition : EvalM Bool} {body : EvalM Signal}
    (hcondition : Keeps view condition) (hbody : Keeps view body)
    (rounds : Nat) : Keeps view (iterate condition body rounds) := by
  induction rounds with
  | zero => exact .throw _
  | succ rounds ih =>
    refine .bind hcondition fun holds => ?_
    split
    · refine .bind hbody fun signal => ?_
      cases signal with
      | next => exact ih
      | leave => exact .pure _
      | yield v => exact .pure _
    · exact .pure _

theorem Keeps.sequence {run : Stmt → EvalM Signal} (h : ∀ s, Keeps view (run s))
    (body : List Stmt) : Keeps view (sequence run body) := by
  induction body with
  | nil => exact .pure _
  | cons s rest ih =>
    refine .bind (h s) fun signal => ?_
    cases signal with
    | next => exact ih
    | leave => exact .pure _
    | yield v => exact .pure _

theorem Keeps.allHold {value : Expr → EvalM Value} (h : ∀ e, Keeps view (value e))
    (conditions : List Expr) : Keeps view (allHold value conditions) := by
  induction conditions with
  | nil => exact .pure _
  | cons e rest ih =>
    refine .bind (h e) fun v => ?_
    split
    · exact ih
    · exact .pure _

theorem Keeps.values {value : Expr → EvalM Value} (h : ∀ e, Keeps view (value e))
    (items : List Expr) : Keeps view (values value items) := by
  induction items with
  | nil => exact .pure _
  | cons e rest ih => exact .bind (h e) fun _ => .bind ih fun _ => .pure _

theorem Keeps.entries {value : Expr → EvalM Value} (depth : Nat)
    (h : ∀ e, Keeps view (value e)) (pairs : List (Expr × Expr)) :
    ∀ content, Keeps view (entries depth value content pairs) := by
  induction pairs with
  | nil => exact fun _ => .pure _
  | cons pair rest ih =>
    exact fun content => .bind (h pair.1) fun _ => .bind (h pair.2) fun _ =>
      .bind (.keyOf depth _) fun _ => ih _

theorem Keeps.bindArguments [Unbound view] (scope : ScopeId) (parameters : List Lexeme) :
    ∀ arguments, Keeps view (EvalM.bind scope parameters arguments) := by
  induction parameters with
  | nil =>
    intro arguments
    cases arguments <;> exact .pure _
  | cons p ps ih =>
    intro arguments
    cases arguments with
    | nil => exact .pure _
    | cons v vs => exact .bind (.define scope _ _) fun _ => ih vs

theorem Keeps.moduleDeclarations (path : Lexeme) (pathText : String)
    (source : ModuleSource) : Keeps view (moduleDeclarations path pathText source) := by
  unfold EvalM.moduleDeclarations
  dsimp only
  split
  · exact .pure _
  · exact .throw _

theorem Keeps.findModule (setup : Setup) (path : Lexeme) (pathText : String) :
    Keeps view (findModule setup path pathText) := by
  refine .bind .get fun m => ?_
  split
  · exact .throw _
  · exact .throw _
  · exact .throw _
  · exact .throw _
  · split
    · exact .throw _
    · exact .pure _

theorem Keeps.importTarget [Material view] (setup : Setup) (space : Option Lexeme) :
    Keeps view (importTarget setup space) := by
  cases space with
  | none => exact .bind .get fun _ => .pure _
  | some name =>
    exact .bind (.modifyGet fun m => Material.code m m.store.functions _) fun _ =>
      .bind (.modify fun m => Material.code m m.store.functions _) fun _ => .pure _

/-- The pending results are taken away by their report. -/
theorem Keeps.reportTests [Unheard view] (setup : Setup)
    (unseen : ∀ (m : Machine) (tests : List TestResult), view { m with tests } = view m) :
    Keeps view (reportTests setup) := by
  refine .bind .get fun m => ?_
  dsimp only
  split
  · exact .pure _
  · exact .bind (.note _) fun _ => .modify fun m => unseen m []

end Sheltered

/-- A module that is found is what the loaders make of the path, and it is not being imported. -/
theorem findModule_ok {setup : Setup} {path : Lexeme} {text : String} {source : ModuleSource}
    {m m' : Machine} (found : findModule setup path text m = .ok source m') :
    Module.load setup.loaders m.host.site m.directory text = .ok (some source) ∧
      source.name ∉ m.importing ∧ m' = m := by
  unfold findModule at found
  rw [get_bind] at found
  cases loaded : Module.load setup.loaders m.host.site m.directory text with
  | error e =>
    rw [loaded] at found
    cases e <;> cases found
  | ok answer =>
    rw [loaded] at found
    cases answer with
    | none => cases found
    | some other =>
      dsimp only at found
      split at found
      · cases found
      · rename_i fresh
        cases found
        rw [List.contains_iff_mem] at fresh
        exact ⟨rfl, fresh, rfl⟩

/-- Entering a directory moves nothing else. -/
theorem Keeps.enterDirectory (directory : Option String) :
    Keeps (fun m => m.surroundings.standing) (enterDirectory directory) := by
  cases directory with
  | none => exact .pure _
  | some dir => exact .modify fun _ => rfl

end EvalM

open EvalM

/-! ## Evaluation -/

/-- What an import does once its module is found. -/
def importBody (setup : Setup) (depth : Nat) (lexeme : Lexeme) (path : String)
    (space : Option Lexeme) (source : ModuleSource) : EvalM Unit := do
  let declarations ← moduleDeclarations lexeme path source
  let target ← importTarget setup space
  enterDirectory source.directory
  let _ ← inScope target (EvalM.sequence (execute setup depth) declarations)
  return ()

/-- The parts of evaluation at one number of levels. -/
structure EvaluationKeeps (setup : Setup) (depth : Nat) : Prop where
  evaluate : ∀ e, Keeps Machine.surroundings (evaluate setup depth e)
  callValue : ∀ place f arguments, Keeps Machine.surroundings (callValue setup depth place f arguments)
  invoke : ∀ f arguments, Keeps Machine.surroundings (invoke setup depth f arguments)
  execute : ∀ s, Keeps Machine.surroundings (execute setup depth s)
  importModule : ∀ path place space,
    Keeps Machine.surroundings (importModule setup depth path place space)

section Level

variable {setup : Setup} {depth : Nat} (ih : EvaluationKeeps setup depth)
include ih

theorem evaluate_keeps (e : Expr) : Keeps Machine.surroundings (evaluate setup (depth + 1) e) := by
  cases e with
  | literal value => exact .pure _
  | group inner => exact ih.evaluate inner
  | «variable» name => exact .lookup name
  | qualified spaces name => exact .lookupQualified spaces name
  -- only the store changes, which is not among the surroundings
  | assign name value =>
    exact .bind (ih.evaluate value) fun _ => .bind (.assign name _) fun _ => .pure _
  | unary op place operand => exact .bind (ih.evaluate operand) fun _ => .unaryOp op place _
  | binary op place left right =>
    exact .bind (ih.evaluate left) fun _ => .bind (ih.evaluate right) fun _ => .binaryOp op depth place _ _
  | logical op place left right =>
    refine .bind (ih.evaluate left) fun a => ?_
    cases op with
    | or =>
      dsimp only
      split
      · exact .pure _
      · exact ih.evaluate right
    | and =>
      dsimp only
      split
      · exact ih.evaluate right
      · exact .pure _
  | choice condition whenTrue whenFalse =>
    refine .bind (ih.evaluate condition) fun c => ?_
    split
    · exact ih.evaluate whenTrue
    · exact ih.evaluate whenFalse
  | call callee close arguments =>
    exact .bind (ih.evaluate callee) fun _ => .bind (.values ih.evaluate arguments) fun _ =>
      ih.callValue close _ _
  | list items => exact .bind (.values ih.evaluate items) fun _ => .newList _
  | map pairs =>
    exact .bind (.entries depth ih.evaluate pairs .empty) fun _ => .bind (.onStore _) fun _ => .pure _
  | index collection bracket key =>
    exact .bind (ih.evaluate collection) fun _ => .bind (ih.evaluate key) fun _ =>
      .indexValue depth bracket _ _
  | slice collection bracket first last =>
    exact .bind (ih.evaluate collection) fun _ => .bind (ih.evaluate first) fun _ =>
      .bind (ih.evaluate last) fun _ => .sliceValue bracket _ _ _

theorem callValue_keeps (place : Place) (f : Value) (arguments : List Value) :
    Keeps Machine.surroundings (callValue setup (depth + 1) place f arguments) := by
  refine .bind .get fun m => ?_
  split
  · exact .throw _
  · split
    · exact .throw _
    · exact .asCall (ih.invoke f arguments)

theorem invoke_keeps (f : Value) (arguments : List Value) :
    Keeps Machine.surroundings (invoke setup (depth + 1) f arguments) := by
  cases f with
  | native g => exact .native setup depth g arguments
  | function id =>
    refine .bind .get fun m => ?_
    dsimp only
    split
    · exact .pure _
    · rename_i c _
      -- precondition, body and postcondition each run in the new scope, and each may fail
      refine .bind (.onStore _) fun scope => .bind (.bindArguments scope _ arguments) fun _ =>
        .bind (.inScope (.allHold ih.evaluate _)) fun before => ?_
      exact .orFail (.bind (.inScope (.sequence ih.execute _)) fun signal =>
        .bind (.define scope _ _) fun _ => .bind (.inScope (.allHold ih.evaluate _)) fun after =>
          .orFail (.pure _))
  | _ => exact .pure _

theorem execute_keeps (s : Stmt) : Keeps Machine.surroundings (execute setup (depth + 1) s) := by
  cases s with
  | expression value => exact .bind (ih.evaluate value) fun _ => .pure _
  | print value =>
    exact .bind (ih.evaluate value) fun _ => .bind (.shown depth _) fun _ =>
      .bind (.note _) fun _ => .pure _
  | var name value =>
    cases value with
    | none => exact .bind (.pure _) fun _ => .bind (.defineHere _ _) fun _ => .pure _
    | some e => exact .bind (ih.evaluate e) fun _ => .bind (.defineHere _ _) fun _ => .pure _
  -- the scope is left for the block only, and put back however that ends
  | block body =>
    exact .bind .get fun _ => .bind (.onStore _) fun _ => .inScope (.sequence ih.execute body)
  | branch condition whenTrue whenFalse =>
    refine .bind (ih.evaluate condition) fun c => ?_
    split
    · exact ih.execute whenTrue
    · split
      · exact ih.execute _
      · exact .pure _
  | loop condition body =>
    exact .iterate (.bind (ih.evaluate condition) fun _ => .pure _) (ih.execute body) _
  | leave place => exact .pure _
  | yield place value =>
    cases value with
    | none => exact .pure _
    | some e => exact .bind (ih.evaluate e) fun _ => .pure _
  | function signature body =>
    exact .bind .get fun _ => .bind (.onStore _) fun _ => .bind (.defineHere _ _) fun _ => .pure _
  | contract kind place clauses =>
    refine .bind (.allHold ih.evaluate clauses.conditions) fun holds => ?_
    split
    · exact .pure _
    · cases kind with
      | assertion => exact .throw _
      | check => exact .bind (.note _) fun _ => .pure _
  | load path place space => exact .bind (ih.importModule path place space) fun _ => .pure _
  | test name place body =>
    exact .bind (.trace setup _) fun _ => .bind .get fun _ => .bind (.onStore _) fun _ =>
      .bind (.asTest (.inScope (ih.execute body))) fun _ => .pure _

/-- What an import does once the module is found keeps all but the directory. -/
theorem importBody_keeps (lexeme : Lexeme) (path : String) (space : Option Lexeme)
    (source : ModuleSource) :
    Keeps (fun m => m.surroundings.standing) (importBody setup depth lexeme path space source) :=
  .bind ((Keeps.moduleDeclarations lexeme path source).coarsen _) fun _ =>
    .bind ((Keeps.importTarget setup space).coarsen _) fun _ =>
    .bind (.enterDirectory source.directory) fun _ =>
    .bind ((Keeps.inScope (.sequence ih.execute _)).coarsen _) fun _ => .pure _

theorem importModule_keeps (path : String) (place : Place) (space : Option Lexeme) :
    Keeps Machine.surroundings (importModule setup (depth + 1) path place space) := by
  intro m
  refine Keeps.bindFrom (Keeps.findModule setup _ path m) fun source m₁ found => ?_
  refine Keeps.bindFrom (Keeps.trace setup _ m₁) fun _ m₂ traced => ?_
  obtain ⟨-, fresh, rfl⟩ := findModule_ok found
  -- the trace leaves the modules being imported alone, so the module is still none of them
  have around : m₂.surroundings = m₁.surroundings := Keeps.of_ok (.trace setup _) traced
  have same : m₂.importing = m₁.importing := congrArg Surroundings.importing around
  exact surroundings_asImport (same ▸ fresh) (importBody_keeps ih _ path space source)

end Level

theorem evaluationKeeps (setup : Setup) (depth : Nat) : EvaluationKeeps setup depth := by
  induction depth with
  | zero =>
    exact ⟨fun _ => .throw _, fun _ _ _ => .throw _, fun _ _ => .throw _, fun _ => .throw _,
      fun _ _ _ => .throw _⟩
  | succ depth ih =>
    exact
      { evaluate := evaluate_keeps ih
        callValue := callValue_keeps ih
        invoke := invoke_keeps ih
        execute := execute_keeps ih
        importModule := importModule_keeps ih }

/-! ## Sessions -/

theorem runTop_keeps (setup : Setup) (s : Stmt) : Keeps Machine.surroundings (runTop setup s) := by
  have run := evaluationKeeps setup setup.limits.depth
  unfold runTop
  split
  · refine .bind (run.evaluate _) fun v => ?_
    split
    · exact .bind (.shown _ _) fun _ => .bind (.note _) fun _ => .pure _
    · exact .pure _
  · exact .bind (run.execute _) fun _ => .pure _

theorem runAll_keeps (setup : Setup) (program : Program) :
    ∀ last, Keeps Machine.surroundings (runAll setup last program) := by
  induction program with
  | nil => exact fun _ => .pure _
  | cons s rest ih => exact fun _ => .bind (runTop_keeps setup s) fun v => ih v

theorem interpret_keeps (setup : Setup) (describe : Fault → String) (program : Program) :
    Keeps Machine.surroundings (interpret setup describe program) := by
  refine .bind (runAll_keeps setup program .nil).catchFault fun result => ?_
  have reported : Keeps Machine.surroundings (reportTests setup) := .reportTests setup fun _ _ => rfl
  cases result with
  | ok v => exact .bind reported fun _ => .pure _
  | error f =>
    exact .bind (.trace setup _) fun _ => .bind (.note _) fun _ =>
      .bind reported fun _ => .pure _

namespace Session

theorem runProgram_surroundings (session : Session) (script : Report.Script) (program : Program) :
    (session.runProgram script program).2.surroundings = session.machine.surroundings := by
  have kept := interpret_keeps session.setup (Report.ofFault script) program session.machine
  unfold finalState at kept
  unfold runProgram
  split
  all_goals
    rename_i run
    rw [run] at kept
    exact kept

/-- The surroundings between scripts: nothing is in progress. -/
def atRest (setup : Setup) : Surroundings :=
  ⟨globals, [], setup.settings.directory, []⟩

/-- A session between scripts whose surroundings are at rest. -/
def AtRest (session : Session) : Prop :=
  session.machine.surroundings = atRest session.setup

theorem setup_handle (session : Session) (source : String) (name : Option String) :
    (session.handle source name).2.setup = session.setup := by
  unfold handle
  dsimp only
  split <;> rfl

/-- A script leaves a session at rest if it finds it at rest. -/
theorem AtRest.handle {session : Session} (h : session.AtRest) (source : String)
    (name : Option String) : (session.handle source name).2.AtRest := by
  -- at rest there are no calls in progress, so starting without any changes nothing
  have fresh : Machine.surroundings { session.machine with events := [], frames := [] }
      = atRest session.setup := by
    have kept := h
    unfold AtRest at kept
    simp only [Machine.surroundings, atRest, Surroundings.mk.injEq] at kept ⊢
    exact ⟨kept.1, trivial, kept.2.2⟩
  unfold AtRest
  rw [setup_handle]
  unfold Session.handle
  dsimp only
  split
  · rw [runProgram_surroundings]
    exact fresh
  · exact fresh

/-- The session after some scripts, each with its source and perhaps a name. -/
def after (session : Session) (scripts : List (String × Option String)) : Session :=
  scripts.foldl (fun current script => (current.handle script.1 script.2).2) session

theorem AtRest.after {session : Session} (h : session.AtRest)
    (scripts : List (String × Option String)) :
    (session.after scripts).AtRest ∧ (session.after scripts).setup = session.setup := by
  induction scripts generalizing session with
  | nil => exact ⟨h, rfl⟩
  | cons script rest ih =>
    obtain ⟨rests, same⟩ := ih (h.handle script.1 script.2)
    exact ⟨rests, same.trans (setup_handle session script.1 script.2)⟩

end Session

/-- However an expression or statement ends, at whatever depth and in whatever state it is run,
the surroundings are afterwards what they were before. After every script of a session nothing is
in progress: the current scope is the global one, no call and no import is under way, and
relative imports are seen from the configured directory. -/
theorem surroundings_restored (setup : Setup) :
    (∀ depth e m, (finalState (evaluate setup depth e) m).surroundings = m.surroundings) ∧
    (∀ depth s m, (finalState (execute setup depth s) m).surroundings = m.surroundings) ∧
    ∀ host scripts, ((Session.new setup host).after scripts).machine.surroundings
      = ⟨Session.globals, [], setup.settings.directory, []⟩ := by
  refine ⟨fun depth => (evaluationKeeps setup depth).evaluate,
    fun depth => (evaluationKeeps setup depth).execute, fun host scripts => ?_⟩
  have start : (Session.new setup host).AtRest := rfl
  obtain ⟨rests, same⟩ := start.after scripts
  unfold Session.AtRest at rests
  rw [rests, same]
  rfl

end ContractScript
