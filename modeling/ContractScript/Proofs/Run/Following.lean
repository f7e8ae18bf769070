/-
Steps that do the same.

Two states are alike if their stores are alike up to a renaming, the current scopes stand
for each other, the calls in progress, the test results and the events differ only in
places, and all else is the same. One step follows another if from states that are alike
they end in states that are alike, with results that are related or with the same failure.
On the way the renaming may grow, by what both have made.

Where contracts may be left out, nothing is asked once the first step has failed: the
second one may then go on.

Following is closed under everything that evaluation is built from. Places enter into no
answer, and references only through what they refer to, so every operation on values that
are alike does the same on both sides.
-/
import ContractScript.Proofs.Run.Matching
import ContractScript.Proofs.Run.Bracketing

set_option autoImplicit false

namespace ContractScript

/-! ## What differs only in places -/

/-- Calls of the same function. -/
structure Frame.Like (R : Place → Place → Prop) (f f' : Frame) : Prop where
  name : f.name = f'.name
  place : R f.place f'.place

/-- Faults with the same cause. -/
structure Fault.Like (R : Place → Place → Prop) (f f' : Fault) : Prop where
  cause : f.cause = f'.cause
  lexeme : Option.Rel (Lexeme.Like R) f.lexeme f'.lexeme
  stack : Option.Rel (List.Forall₂ (Frame.Like R)) f.stack f'.stack

/-- The same defect, or faults with the same cause; or both are left unfinished. -/
inductive Failure.Like (R : Place → Place → Prop) : Failure → Failure → Prop
  | fault {f f' : Fault} (same : f.Like R f') : Like R (.fault f) (.fault f')
  | defect (d : Defect) : Like R (.defect d) (.defect d)
  | unfinished : Like R .unfinished .unfinished

/-- Tests of the same name that ended in the same way. -/
structure TestResult.Like (R : Place → Place → Prop) (r r' : TestResult) : Prop where
  name : r.name = r'.name
  line : ∃ p p', R p p' ∧ r.line = p.line ∧ r'.line = p'.line
  failure : r.failure = r'.failure

/-- Signals that carry values that are alike. -/
inductive Signal.Like (ρ : Renaming) : Signal → Signal → Prop
  | next : Like ρ .next .next
  | leave : Like ρ .leave .leave
  | yield {v v' : Value} (value : v.Like ρ v') : Like ρ (.yield v) (.yield v')

/-- States that are alike. -/
structure Machine.Like (T : Terms) (ρ : Renaming) (m m' : Machine) : Prop where
  store : m.store.Like T ρ m'.store
  scope : ρ.scopes m.scope m'.scope
  frames : List.Forall₂ (Frame.Like T.place) m.frames m'.frames
  directory : m.directory = m'.directory
  importing : ∀ name, name ∈ m.importing ↔ name ∈ m'.importing
  tests : List.Forall₂ (TestResult.Like T.place) m.tests m'.tests
  untested : T.mode ≠ .tested → m.tests = []
  events : ∃ es es', m.events = es ++ T.earlier ∧ m'.events = es' ++ T.earlier' ∧
    List.Forall₂ T.event es es'
  host : m.host = m'.host

theorem Failure.like_at {R : Place → Place → Prop} {l l' : Lexeme} (lexeme : l.Like R l')
    (cause : Cause) : (Failure.at l cause).Like R (.at l' cause) :=
  .fault ⟨rfl, .some lexeme, .none⟩

theorem Failure.like_unlocated (R : Place → Place → Prop) (cause : Cause) :
    (Failure.unlocated cause).Like R (.unlocated cause) :=
  .fault ⟨rfl, .none, .none⟩

namespace Machine.Like

variable {T : Terms} {ρ σ : Renaming} {m m' : Machine}

/-- Other stores that are alike, up to a renaming that has grown. -/
theorem withStore (h : m.Like T ρ m') (grown : ρ ≤ σ) {s s' : Store} (store : s.Like T σ s') :
    Machine.Like T σ { m with store := s } { m' with store := s' } :=
  { h with store := store, scope := grown.scopes _ _ h.scope }

theorem withScope (h : m.Like T ρ m') {id id' : ScopeId} (same : ρ.scopes id id') :
    Machine.Like T ρ { m with scope := id } { m' with scope := id' } :=
  { h with scope := same }

theorem withHost (h : m.Like T ρ m') (host : Host) :
    Machine.Like T ρ { m with host := host } { m' with host := host } :=
  { h with host := rfl }

theorem withEvent (h : m.Like T ρ m') {e e' : Event} (event : T.event e e') :
    Machine.Like T ρ { m with events := e :: m.events } { m' with events := e' :: m'.events } := by
  obtain ⟨es, es', left, right, like⟩ := h.events
  refine { h with events := ⟨e :: es, e' :: es', ?_, ?_, .cons event like⟩ }
  · exact congrArg (e :: ·) left
  · exact congrArg (e' :: ·) right

end Machine.Like

theorem optionRel_orElse {α : Type} {R : α → α → Prop} {x x' y y' : Option α} (first : Option.Rel R x x')
    (second : Option.Rel R y y') : Option.Rel R (x <|> y) (x' <|> y') := by
  cases first with
  | none => exact second
  | some holds => exact .some holds

theorem forall₂_getElem? {α : Type} {R : α → α → Prop} {xs ys : List α} (h : List.Forall₂ R xs ys) :
    ∀ i : Nat, Option.Rel R xs[i]? ys[i]? := by
  induction h with
  | nil => exact fun _ => .none
  | cons first _ ih =>
    intro i
    cases i with
    | zero => exact .some first
    | succ i => exact ih i

/-- Items that are alike, at one position. -/
theorem Store.like_getD {ρ : Renaming} {xs ys : Array Value}
    (items : List.Forall₂ (Value.Like ρ) xs.toList ys.toList) (i : Nat) :
    (xs.getD i .nil).Like ρ (ys.getD i .nil) := by
  have found := forall₂_getElem? items i
  rw [Array.getElem?_toList, Array.getElem?_toList] at found
  rw [Array.getD_eq_getD_getElem?, Array.getD_eq_getD_getElem?]
  generalize xs[i]? = r, ys[i]? = r' at found ⊢
  cases found with
  | none => exact .nil
  | some value => exact value

namespace EvalM

variable {α α' β β' : Type} {T : Terms} {ρ : Renaming}

/-! ## Following -/

/-- Ends that are alike: results that are related, or the same failure. -/
inductive Ends (T : Terms) (ρ : Renaming) (good : Renaming → α → α' → Prop) :
    EStateM.Result Failure Machine α → EStateM.Result Failure Machine α' → Prop
  | ok {σ : Renaming} {a : α} {a' : α'} {m m' : Machine} (grown : ρ ≤ σ) (state : m.Like T σ m')
      (holds : good σ a a') : Ends T ρ good (.ok a m) (.ok a' m')
  | error {σ : Renaming} {e e' : Failure} {m m' : Machine} (grown : ρ ≤ σ) (state : m.Like T σ m')
      (same : e.Like T.place e') : Ends T ρ good (.error e m) (.error e' m')
  | given {e : Failure} {m : Machine} {r : EStateM.Result Failure Machine α'}
      (allowed : T.mode = .erasing) : Ends T ρ good (.error e m) r

/-- From states that are alike two steps end alike. -/
def Follows (T : Terms) (ρ : Renaming) (good : Renaming → α → α' → Prop) (x : EvalM α)
    (y : EvalM α') : Prop :=
  ∀ m m', m.Like T ρ m' → Ends T ρ good (x m) (y m')

/-- The same result, whatever the renaming. -/
def Same (_ : Renaming) (a b : α) : Prop := a = b

/-- No demand on the results. -/
def Whatever (_ : Renaming) (_ : α) (_ : α') : Prop := True

/-- Both hold or both do not, or only the first does not and contracts may be left out. -/
def Granted (T : Terms) (_ : Renaming) (holds holds' : Bool) : Prop :=
  holds = holds' ∨ (T.mode = .erasing ∧ holds' = true)

/-- Results that are related, or faults with the same cause. -/
inductive Caught (T : Terms) (good : Renaming → α → α' → Prop) (ρ : Renaming) :
    Except Fault α → Except Fault α' → Prop
  | ok {a : α} {a' : α'} (holds : good ρ a a') : Caught T good ρ (.ok a) (.ok a')
  | fault {f f' : Fault} (same : f.Like T.place f') : Caught T good ρ (.error f) (.error f')

/-- Ends that are alike from a renaming that had grown. -/
theorem Ends.weaken {σ : Renaming} {good : Renaming → α → α' → Prop} {r r'}
    (h : Ends T σ good r r') (grown : ρ ≤ σ) : Ends T ρ good r r' := by
  cases h with
  | ok more state holds => exact .ok (Renaming.le_trans grown more) state holds
  | error more state same => exact .error (Renaming.le_trans grown more) state same
  | given allowed => exact .given allowed

theorem Ends.mono {good good' : Renaming → α → α' → Prop} {r r'}
    (h : Ends T ρ good r r') (weaker : ∀ σ a a', ρ ≤ σ → good σ a a' → good' σ a a') :
    Ends T ρ good' r r' := by
  cases h with
  | ok grown state holds => exact .ok grown state (weaker _ _ _ grown holds)
  | error grown state same => exact .error grown state same
  | given allowed => exact .given allowed

namespace Follows

variable {P : Renaming → β → β' → Prop} {Q Q' : Renaming → α → α' → Prop}
  {x : EvalM α} {y : EvalM α'} {f : α → EvalM β} {g : α' → EvalM β'}

theorem mono (h : Follows T ρ Q x y)
    (weaker : ∀ σ a a', ρ ≤ σ → Q σ a a' → Q' σ a a') : Follows T ρ Q' x y :=
  fun m m' like => (h m m' like).mono weaker

theorem pure {a : α} {a' : α'} (h : Q ρ a a') : Follows T ρ Q (pure a) (pure a') :=
  fun _ _ like => .ok (Renaming.le_refl ρ) like h

theorem throw {e e' : Failure} (same : e.Like T.place e') :
    Follows T ρ Q (throw e) (throw e') :=
  fun _ _ like => .error (Renaming.le_refl ρ) like same

/-- The same defect. -/
theorem defect (d : Defect) : Follows T ρ Q (MonadExcept.throw (.defect d)) (MonadExcept.throw (.defect d)) :=
  throw (.defect d)

theorem unfinished : Follows T ρ Q (MonadExcept.throw .unfinished) (MonadExcept.throw .unfinished) :=
  throw .unfinished

theorem failAt {l l' : Lexeme} (lexeme : l.Like T.place l') (cause : Cause) :
    Follows T ρ Q (EvalM.failAt l cause) (EvalM.failAt l' cause) :=
  throw (Failure.like_at lexeme cause)

theorem failAtPlace {p p' : Place} (place : T.place p p') (text : String) (cause : Cause) :
    Follows T ρ Q (EvalM.failAt ⟨text, p⟩ cause) (EvalM.failAt ⟨text, p'⟩ cause) := by
  have lexeme : Lexeme.Like T.place ⟨text, p⟩ ⟨text, p'⟩ := ⟨rfl, place⟩
  exact failAt lexeme cause

theorem failHere (cause : Cause) :
    Follows T ρ Q (EvalM.failHere cause) (EvalM.failHere cause) :=
  throw (Failure.like_unlocated T.place cause)

theorem bind (hx : Follows T ρ Q x y)
    (hf : ∀ σ a a', ρ ≤ σ → Q σ a a' → Follows T σ P (f a) (g a')) :
    Follows T ρ P (x >>= f) (y >>= g) := by
  intro m m' like
  have first := hx m m' like
  show Ends T ρ P (EStateM.bind x f m) (EStateM.bind y g m')
  unfold EStateM.bind
  generalize x m = r, y m' = r' at first ⊢
  cases first with
  | ok grown state holds => exact (hf _ _ _ grown holds _ _ state).weaken grown
  | error grown state same => exact .error grown state same
  | given allowed => exact .given allowed

/-- The states that two steps look at are alike. -/
theorem get : Follows T ρ (fun σ m m' => m.Like T σ m') (get : EvalM Machine) get :=
  fun _ _ like => .ok (Renaming.le_refl ρ) like like

/-- The states are replaced by some that are alike. -/
theorem set {m m' : Machine} (like : m.Like T ρ m') :
    Follows T ρ Whatever (set m : EvalM PUnit) (set m') :=
  fun _ _ _ => .ok (Renaming.le_refl ρ) like trivial

theorem modify {c d : Machine → Machine}
    (keeps : ∀ m m', m.Like T ρ m' → (c m).Like T ρ (d m')) :
    Follows T ρ Whatever (modify c : EvalM Unit) (modify d) :=
  fun m m' like => .ok (Renaming.le_refl ρ) (keeps m m' like) trivial

theorem modifyGet {c : Machine → α × Machine} {d : Machine → α' × Machine}
    (keeps : ∀ m m', m.Like T ρ m' → (c m).2.Like T ρ (d m').2 ∧ Q ρ (c m).1 (d m').1) :
    Follows T ρ Q (modifyGet c) (modifyGet d) :=
  fun m m' like => .ok (Renaming.le_refl ρ) (keeps m m' like).1 (keeps m m' like).2

/-- A change of the store, by which the renaming may grow. -/
theorem onStore {c : Store → α × Store} {d : Store → α' × Store}
    (keeps : ∀ s s', s.Like T ρ s' →
      ∃ σ, ρ ≤ σ ∧ (c s).2.Like T σ (d s').2 ∧ Q σ (c s).1 (d s').1) :
    Follows T ρ Q (EvalM.onStore c) (EvalM.onStore d) := by
  intro m m' like
  obtain ⟨σ, grown, store, holds⟩ := keeps m.store m'.store like.store
  exact .ok grown (like.withStore grown store) holds

/-- Steps that fail first unless a contract holds; it may hold on the second side alone. -/
theorem orFail {holds holds' : Bool} (same : Granted T ρ holds holds') {cause : Cause}
    (h : Follows T ρ Q x y) :
    Follows T ρ Q (if !holds then EvalM.failHere cause >>= fun _ : Unit => x else x)
      (if !holds' then EvalM.failHere cause >>= fun _ : Unit => y else y) := by
  rcases same with rfl | ⟨allowed, rfl⟩
  · cases holds with
    | true => exact h
    | false => exact bind (Q := fun _ _ _ => False) (failHere cause) fun _ _ _ _ never => never.elim
  · cases holds with
    | true => exact h
    | false => exact fun _ _ _ => .given allowed

theorem orTooDeep {answer : Option α} {answer' : Option α'} (h : Option.Rel (Q ρ) answer answer') :
    Follows T ρ Q (EvalM.orTooDeep answer) (EvalM.orTooDeep answer') := by
  cases h with
  | none => exact defect .tooDeep
  | some holds => exact pure holds

/-! ## The places that swap -/

theorem inScope {id id' : ScopeId} (same : ρ.scopes id id') (h : Follows T ρ Q x y) :
    Follows T ρ Q (EvalM.inScope id x) (EvalM.inScope id' y) := by
  intro m m' like
  have inside := h _ _ (like.withScope same)
  unfold EvalM.inScope restoring
  dsimp only
  generalize x { m with scope := id } = r, y { m' with scope := id' } = r' at inside ⊢
  cases inside with
  | ok grown state holds => exact .ok grown (state.withScope (grown.scopes _ _ like.scope)) holds
  | error grown state same => exact .error grown (state.withScope (grown.scopes _ _ like.scope)) same
  | given allowed => exact .given allowed

/-- A fault that leaves a call is located on both sides in the same way. -/
theorem inCall {frame frame' : Frame} (call : frame.Like T.place frame') {l l' : Lexeme}
    (close : l.Like T.place l') (h : Follows T ρ Q x y) :
    Follows T ρ Q (EvalM.inCall frame l x) (EvalM.inCall frame' l' y) := by
  intro m m' like
  have frames : List.Forall₂ (Frame.Like T.place) (frame :: m.frames) (frame' :: m'.frames) :=
    .cons call like.frames
  have inside := h _ _ { like with frames := frames : Machine.Like T ρ
    { m with frames := frame :: m.frames } { m' with frames := frame' :: m'.frames } }
  unfold EvalM.inCall
  dsimp only
  generalize x { m with frames := frame :: m.frames } = r,
    y { m' with frames := frame' :: m'.frames } = r' at inside ⊢
  cases inside with
  | ok grown state holds => exact .ok grown { state with frames := like.frames } holds
  | given allowed => exact .given allowed
  | error grown state same =>
    refine .error grown { state with frames := like.frames } ?_
    have stack : Option.Rel (List.Forall₂ (Frame.Like T.place))
        (some (frame :: m.frames).reverse) (some (frame' :: m'.frames).reverse) :=
      .some (List.rel_reverse frames)
    cases same with
    | fault same =>
      exact .fault ⟨same.cause, optionRel_orElse same.lexeme (.some close),
        optionRel_orElse same.stack stack⟩
    | defect d =>
      -- nesting too deep is turned into a fault by the call around it
      cases d with
      | tooDeep => exact .fault ⟨rfl, .some close, stack⟩
      | _ => exact .defect _
    | unfinished => exact .unfinished

theorem inImport (name : String) (h : Follows T ρ Q x y) :
    Follows T ρ Q (EvalM.inImport name x) (EvalM.inImport name y) := by
  intro m m' like
  have importing : ∀ other, other ∈ name :: m.importing ↔ other ∈ name :: m'.importing := by
    intro other
    rw [List.mem_cons, List.mem_cons, like.importing]
  have inside := h _ _ { like with importing := importing : Machine.Like T ρ
    { m with importing := name :: m.importing } { m' with importing := name :: m'.importing } }
  unfold EvalM.inImport restoring
  dsimp only
  generalize x { m with importing := name :: m.importing } = r,
    y { m' with importing := name :: m'.importing } = r' at inside ⊢
  cases inside with
  | ok grown state holds =>
    exact .ok grown { state with importing := like.importing, directory := like.directory } holds
  | error grown state same =>
    exact .error grown { state with importing := like.importing, directory := like.directory } same
  | given allowed => exact .given allowed

/-- What is caught is the same fault, or the results are related. -/
theorem catchFault (catching : T.mode ≠ .erasing) (h : Follows T ρ Q x y) :
    Follows T ρ (Caught T Q) (EvalM.catchFault x) (EvalM.catchFault y) := by
  intro m m' like
  have inside := h m m' like
  unfold EvalM.catchFault
  generalize x m = r, y m' = r' at inside ⊢
  cases inside with
  | ok grown state holds => exact .ok grown state (.ok holds)
  | error grown state same =>
    cases same with
    | fault same => exact .ok grown state (.fault same)
    | defect d => exact .error grown state (.defect d)
    | unfinished => exact .error grown state .unfinished
  | given allowed => exact absurd allowed catching

theorem asTest (tested : T.mode = .tested) (name : String) {p p' : Place} (place : T.place p p')
    (h : Follows T ρ Q x y) :
    Follows T ρ Whatever (EvalM.asTest name p.line x) (EvalM.asTest name p'.line y) := by
  have catching : T.mode ≠ .erasing := by
    rw [tested]
    decide
  refine bind (h.catchFault catching) fun σ a a' grown caught => modify fun m m' like => ?_
  refine
    { like with
      untested := fun not => absurd tested not
      tests := List.rel_append like.tests (.cons ⟨rfl, ⟨p, p', place, rfl, rfl⟩, ?_⟩ .nil) }
  cases caught with
  | ok _ => rfl
  | fault same => exact congrArg (fun c : Cause => some c.message) same.cause

/-! ## Single operations -/

theorem note {e e' : Event} (event : T.event e e') :
    Follows T ρ Whatever (EvalM.note e) (EvalM.note e') :=
  modify fun _ _ like => like.withEvent event

theorem emit (channel : Channel) (text : String) :
    Follows T ρ Whatever (EvalM.emit channel text) (EvalM.emit channel text) :=
  note (T.sameEvent _)

theorem trace (setup : Setup) (text : String) :
    Follows T ρ Whatever (EvalM.trace setup text) (EvalM.trace setup text) := by
  unfold EvalM.trace
  split
  · exact note (T.sameEvent _)
  · exact pure trivial

theorem newList {xs ys : Array Value} (items : List.Forall₂ (Value.Like ρ) xs.toList ys.toList) :
    Follows T ρ Value.Like (EvalM.newList xs) (EvalM.newList ys) := by
  refine bind (Q := fun σ id id' => σ.lists id id') (onStore fun s s' like => ?_)
    fun _ _ _ _ same => pure (.list same)
  exact ⟨_, Store.le_renamingList ρ s s', like.newList items, .inr ⟨rfl, rfl⟩⟩

theorem newMap {content content' : OrderedMap Key Entry}
    (entries : content.Like (Key.Like ρ) (Entry.Like ρ) content') :
    Follows T ρ (fun σ id id' => σ.maps id id') (EvalM.onStore fun s => s.newMap content)
      (EvalM.onStore fun s => s.newMap content') :=
  onStore fun s s' like => ⟨_, Store.le_renamingMap ρ s s', like.newMap entries, .inr ⟨rfl, rfl⟩⟩

theorem newFunction {c c' : Closure} (closure : c.Like T ρ c') :
    Follows T ρ (fun σ id id' => σ.functions id id') (EvalM.onStore fun s => s.newFunction c)
      (EvalM.onStore fun s => s.newFunction c') :=
  onStore fun s s' like =>
    ⟨_, Store.le_renamingFunction ρ s s', like.newFunction closure, .inr ⟨rfl, rfl⟩⟩

theorem newScope {outer outer' : ScopeId} (around : ρ.scopes outer outer') :
    Follows T ρ (fun σ id id' => σ.scopes id id') (EvalM.newScope (some outer))
      (EvalM.newScope (some outer')) :=
  onStore fun s s' like => ⟨_, Store.le_renamingScope ρ s s', like.newScope around, .inr ⟨rfl, rfl⟩⟩

theorem newRoot (setup : Setup) :
    Follows T ρ (fun σ id id' => σ.scopes id id') (EvalM.newRoot setup) (EvalM.newRoot setup) :=
  onStore fun s s' like =>
    ⟨_, Store.le_renamingScope ρ s s', like.newRoot setup.natives, .inr ⟨rfl, rfl⟩⟩

theorem define {id id' : ScopeId} (same : ρ.scopes id id') (name : String) {v v' : Value}
    (value : v.Like ρ v') : Follows T ρ Whatever (EvalM.define id name v) (EvalM.define id' name v') :=
  modify fun _ _ like =>
    like.withStore (Renaming.le_refl ρ) (like.store.define same name value)

theorem defineHere (name : String) {v v' : Value} (value : v.Like ρ v') :
    Follows T ρ Whatever (EvalM.defineHere name v) (EvalM.defineHere name v') :=
  modify fun _ _ like =>
    like.withStore (Renaming.le_refl ρ) (like.store.define like.scope name value)

theorem shown (depth : Nat) {v v' : Value} (value : v.Like ρ v') :
    Follows T ρ Same (EvalM.shown depth v) (EvalM.shown depth v') :=
  bind get fun _ _ _ grown like =>
    orTooDeep (Store.optionRel_of_eq (like.store.show? _ false (value.mono grown)))

theorem same (depth : Nat) {a a' b b' : Value} (left : a.Like ρ a') (right : b.Like ρ b') :
    Follows T ρ Same (EvalM.same depth a b) (EvalM.same depth a' b') :=
  bind get fun _ _ _ grown like =>
    orTooDeep (Store.optionRel_of_eq (like.store.equal? _ (left.mono grown) (right.mono grown)))

theorem keyOf (depth : Nat) {v v' : Value} (value : v.Like ρ v') :
    Follows T ρ Key.Like (EvalM.keyOf depth v) (EvalM.keyOf depth v') :=
  bind get fun _ _ _ grown like => orTooDeep (like.store.key? _ (value.mono grown))

/-! ## Operators -/

theorem unaryOp (op : UnaryOp) {p p' : Place} (place : T.place p p') {v v' : Value}
    (value : v.Like ρ v') : Follows T ρ Value.Like (op.apply p v) (op.apply p' v') := by
  cases op with
  | not =>
    show Follows T ρ Value.Like (Pure.pure (.bool !v.isTruthy)) (Pure.pure (.bool !v'.isTruthy))
    rw [value.isTruthy]
    exact pure (.bool _)
  | negate =>
    cases value with
    | num x => exact pure (.num _)
    | _ => exact failAtPlace place _ _

theorem addValues (depth : Nat) {p p' : Place} (place : T.place p p') {a a' b b' : Value}
    (left : a.Like ρ a') (right : b.Like ρ b') :
    Follows T ρ Value.Like (ContractScript.addValues depth p a b)
      (ContractScript.addValues depth p' a' b') := by
  -- with a text on either side the other one is shown
  have joined (y : String) : Follows T ρ Value.Like
      (EvalM.shown depth a >>= fun x => Pure.pure (.text (x ++ y)))
      (EvalM.shown depth a' >>= fun x => Pure.pure (.text (x ++ y))) :=
    bind (shown depth left) fun _ _ _ _ same => same ▸ pure (.text _)
  cases left with
  | text x => exact bind (shown depth right) fun _ _ _ _ same => same ▸ pure (.text _)
  | num x =>
    cases right with
    | num y => exact pure (.num _)
    | text y => exact joined y
    | _ => exact failAtPlace place _ _
  | list same =>
    cases right with
    | list other =>
      refine bind get fun σ m m' grown like => newList ?_
      rw [Array.toList_append, Array.toList_append]
      exact List.rel_append (like.store.items (grown.lists _ _ same))
        (like.store.items (grown.lists _ _ other))
    | text y => exact joined y
    | _ => exact failAtPlace place _ _
  | nil | bool | native | map | function =>
    cases right with
    | text y => exact joined y
    | _ => exact failAtPlace place _ _

theorem onNumbers (op : BinaryOp) {p p' : Place} (place : T.place p p') (x y : Float) :
    Follows T ρ Value.Like (op.onNumbers p x y) (op.onNumbers p' x y) := by
  cases op
  case divide =>
    show Follows _ _ _ (if Number.isZero y then _ else _) (if Number.isZero y then _ else _)
    split
    · exact failAtPlace place _ _
    · exact pure (.num _)
  case remainder =>
    show Follows _ _ _ (if Number.isZero y then _ else _) (if Number.isZero y then _ else _)
    split
    · exact failAtPlace place _ _
    · split
      · exact pure (.num _)
      · exact defect _
  all_goals first | exact pure (.num _) | exact pure (.bool _)

theorem binaryOp (op : BinaryOp) (depth : Nat) {p p' : Place} (place : T.place p p')
    {a a' b b' : Value} (left : a.Like ρ a') (right : b.Like ρ b') :
    Follows T ρ Value.Like (op.apply depth p a b) (op.apply depth p' a' b') := by
  cases op with
  | add => exact addValues depth place left right
  | equal => exact bind (same depth left right) fun _ _ _ _ same => same ▸ pure (.bool _)
  | unequal => exact bind (same depth left right) fun _ _ _ _ same => same ▸ pure (.bool _)
  | _ =>
    cases left with
    | num x =>
      cases right with
      | num y =>
        simp only [BinaryOp.apply]
        exact onNumbers _ place x y
      | _ => exact failAtPlace place _ _
    | _ => exact failAtPlace place _ _

theorem subscriptOf {p p' : Place} (place : T.place p p') {v v' : Value} (value : v.Like ρ v') :
    Follows T ρ Same (ContractScript.subscriptOf p v) (ContractScript.subscriptOf p' v') := by
  unfold ContractScript.subscriptOf
  cases value with
  | num x =>
    dsimp only
    split
    · exact pure rfl
    · exact failAtPlace place _ _
  | _ => exact failAtPlace place _ _

theorem positionIn {p p' : Place} (place : T.place p p') (size : Nat) {v v' : Value}
    (value : v.Like ρ v') :
    Follows T ρ Same (ContractScript.positionIn p size v) (ContractScript.positionIn p' size v') := by
  refine bind (subscriptOf place value) fun σ i i' _ (same : i = i') => ?_
  subst same
  split
  · exact pure rfl
  · exact failAtPlace place _ _

theorem indexValue (depth : Nat) {p p' : Place} (place : T.place p p') {c c' k k' : Value}
    (collection : c.Like ρ c') (key : k.Like ρ k') :
    Follows T ρ Value.Like (ContractScript.indexValue depth p c k)
      (ContractScript.indexValue depth p' c' k') := by
  unfold ContractScript.indexValue
  cases collection with
  | list same =>
    refine bind get fun σ m m' grown like => ?_
    have items := like.store.items (grown.lists _ _ same)
    dsimp only
    rw [← Array.length_toList, ← Array.length_toList, items.length_eq]
    refine bind (positionIn place _ (key.mono grown)) fun τ i i' more (same : i = i') => pure ?_
    subst same
    exact (Store.like_getD items i).mono more
  | text t =>
    exact bind (positionIn place _ key) fun _ _ _ _ same => same ▸ pure (.text _)
  | map same =>
    refine bind (keyOf depth key) fun σ k k' grown key => bind get fun τ m m' more like => ?_
    have found := (like.store.content (more.maps _ _ (grown.maps _ _ same))).get? like.store.agrees
      (key.mono more)
    generalize OrderedMap.get? _ k = r, OrderedMap.get? _ k' = r' at found ⊢
    cases found with
    | none => exact failAtPlace place _ _
    | some entry => exact pure entry.value
  | _ => exact failAtPlace place _ _

theorem sliceBounds {p p' : Place} (place : T.place p p') (size : Nat) {a a' b b' : Value}
    (first : a.Like ρ a') (last : b.Like ρ b') :
    Follows T ρ Same (ContractScript.sliceBounds p size a b)
      (ContractScript.sliceBounds p' size a' b') := by
  refine bind (subscriptOf place first) fun σ low low' grown (same : low = low') =>
    bind (subscriptOf place (last.mono grown)) fun τ high high' more (other : high = high') => ?_
  subst same other
  split
  · exact pure rfl
  · exact failAtPlace place _ _

theorem sliceValue {p p' : Place} (place : T.place p p') {c c' a a' b b' : Value}
    (collection : c.Like ρ c') (first : a.Like ρ a') (last : b.Like ρ b') :
    Follows T ρ Value.Like (ContractScript.sliceValue p c a b)
      (ContractScript.sliceValue p' c' a' b') := by
  unfold ContractScript.sliceValue
  cases collection with
  | list same =>
    refine bind get fun σ m m' grown like => ?_
    have items := like.store.items (grown.lists _ _ same)
    dsimp only
    rw [← Array.length_toList, ← Array.length_toList, items.length_eq]
    refine bind (sliceBounds place _ (first.mono grown) (last.mono grown))
      fun τ ends ends' more (same : ends = ends') => ?_
    subst same
    refine newList ?_
    rw [Array.toList_extract, Array.toList_extract, List.extract_eq_take_drop, List.extract_eq_take_drop]
    exact List.forall₂_take _ (List.forall₂_drop _ (items.imp fun _ _ value => value.mono more))
  | text t =>
    exact bind (sliceBounds place _ first last) fun _ _ _ _ same => same ▸ pure (.text _)
  | _ => exact failAtPlace place _ _

/-! ## Built-in functions -/

theorem reject (depth : Nat) (wanted : Wanted) {v v' : Value} (value : v.Like ρ v') :
    Follows T ρ Q (Native.reject depth wanted v) (Native.reject depth wanted v') :=
  bind (shown depth value) fun _ _ _ _ same => same ▸ failHere _

theorem expectMap (depth : Nat) {v v' : Value} (value : v.Like ρ v') :
    Follows T ρ (fun σ id id' => σ.maps id id') (Native.expectMap depth v)
      (Native.expectMap depth v') := by
  have rejected : Follows T ρ (fun σ id id' => σ.maps id id') (Native.reject depth .map v : EvalM MapId)
      (Native.reject depth .map v') := reject depth .map value
  cases value with
  | map same => exact pure same
  | _ => exact rejected

theorem expectText (depth : Nat) (wanted : Wanted) {v v' : Value} (value : v.Like ρ v') :
    Follows T ρ Same (Native.expectText depth wanted v) (Native.expectText depth wanted v') := by
  have rejected : Follows T ρ Same (Native.reject depth wanted v : EvalM String)
      (Native.reject depth wanted v') := reject depth wanted value
  cases value with
  | text t => exact pure rfl
  | _ => exact rejected

theorem fileProblem (cause : String → Cause) (problem : FileTree.Problem) :
    Follows T ρ Q (Native.fileProblem cause problem) (Native.fileProblem cause problem) := by
  cases problem with
  | refused reason => exact failHere _
  | nullByte => exact defect _
  | undecodable m => exact defect _

theorem readLine (depth : Nat) {v v' : Value} (prompt : v.Like ρ v') :
    Follows T ρ Value.Like (Native.readLine depth v) (Native.readLine depth v') := by
  refine bind (shown depth prompt) fun _ text text' _ (same : text = text') =>
    bind (note (same ▸ T.sameEvent _)) fun _ _ _ _ _ => bind get fun _ m m' _ like => ?_
  rw [← like.host]
  split
  · exact pure .nil
  · refine bind (set (like.withHost _)) fun _ _ _ _ _ => ?_
    split
    · exact pure (.text _)
    · exact defect _

theorem length (depth : Nat) {v v' : Value} (value : v.Like ρ v') :
    Follows T ρ Value.Like (Native.length depth v) (Native.length depth v') := by
  refine bind get fun σ m m' grown like => ?_
  have rejected : Follows T σ Value.Like (Native.reject depth .collection v)
      (Native.reject depth .collection v') := reject depth .collection (value.mono grown)
  cases value with
  | list same =>
    have items := (like.store.items (grown.lists _ _ same)).length_eq
    rw [Array.length_toList, Array.length_toList] at items
    dsimp only
    rw [items]
    exact pure (.num _)
  | map same =>
    dsimp only
    rw [(like.store.content (grown.maps _ _ same)).size]
    exact pure (.num _)
  | text t => exact pure (.num _)
  | _ => exact rejected

theorem readFile (setup : Setup) (path : String) :
    Follows T ρ Value.Like (Native.readFile setup path) (Native.readFile setup path) := by
  refine bind get fun _ m m' _ like => ?_
  rw [like.host]
  split
  · exact pure (.text _)
  · exact fileProblem _ _

theorem writeFile (setup : Setup) (path content : String) :
    Follows T ρ Value.Like (Native.writeFile setup path content)
      (Native.writeFile setup path content) := by
  refine bind get fun _ m m' _ like => ?_
  rw [like.host]
  split
  · exact bind (modify fun _ _ like => like.withHost _) fun _ _ _ _ _ => pure .nil
  · exact fileProblem _ _

theorem fetch (setup : Setup) (url : String) :
    Follows T ρ Value.Like (Native.fetch setup url) (Native.fetch setup url) := by
  refine bind get fun _ m m' _ like => ?_
  dsimp only
  rw [← like.host]
  refine bind (set (like.withHost _)) fun _ _ _ _ _ => ?_
  split
  · exact pure (.text _)
  · exact defect _
  · exact failHere _
  · exact pure .nil

/-- A number that the host supplies. -/
theorem supplied (take : Host → Float × Host) :
    Follows T ρ Value.Like
      (MonadStateOf.modifyGet fun m : Machine => (.num (take m.host).1, { m with host := (take m.host).2 }))
      (MonadStateOf.modifyGet fun m : Machine =>
        (.num (take m.host).1, { m with host := (take m.host).2 })) :=
  modifyGet fun m m' like => by
    dsimp only
    rw [← like.host]
    exact ⟨like.withHost _, .num _⟩

/-- The keys or values of a map, as a new list. -/
theorem listOf (depth : Nat) {v v' : Value} (value : v.Like ρ v') (part : Entry → Value)
    (parts : ∀ (σ : Renaming) (e e' : Entry), e.Like σ e' → (part e).Like σ (part e')) :
    Follows T ρ Value.Like
      (Native.expectMap depth v >>= fun id => MonadState.get >>= fun m : Machine =>
        EvalM.newList ((m.store.content id).values.map part).toArray)
      (Native.expectMap depth v' >>= fun id => MonadState.get >>= fun m : Machine =>
        EvalM.newList ((m.store.content id).values.map part).toArray) := by
  refine bind (expectMap depth value) fun σ id id' grown same => bind get fun τ m m' more like =>
    newList ?_
  rw [List.forall₂_map_left_iff, List.forall₂_map_right_iff]
  exact (like.store.content (more.maps _ _ same)).values.imp fun e e' entry => parts τ e e' entry

theorem putEntry (depth : Nat) {t t' k k' v v' : Value} (target : t.Like ρ t') (key : k.Like ρ k')
    (value : v.Like ρ v') (setup : Setup) :
    Follows T ρ Value.Like (Native.call setup depth .put [t, k, v])
      (Native.call setup depth .put [t', k', v']) := by
  refine bind (expectMap depth target) fun σ id id' grown same =>
    bind (keyOf depth (key.mono grown)) fun τ l l' more key' =>
    bind (modify fun m m' like => like.withStore (Renaming.le_refl τ) ?_) fun υ _ _ last _ =>
    pure (target.mono (Renaming.le_trans grown (Renaming.le_trans more last)))
  have all := Renaming.le_trans grown more
  exact like.store.put (more.maps _ _ same) key' ⟨key.mono all, value.mono all⟩

theorem appendItem (depth : Nat) {t t' v v' : Value} (target : t.Like ρ t') (value : v.Like ρ v')
    (setup : Setup) :
    Follows T ρ Value.Like (Native.call setup depth .append [t, v])
      (Native.call setup depth .append [t', v']) := by
  have rejected : Follows T ρ Value.Like (Native.reject depth .list t) (Native.reject depth .list t') :=
    reject depth .list target
  cases target with
  | list same =>
    exact bind (modify fun _ _ like => like.withStore (Renaming.le_refl ρ) (like.store.push same value))
      fun _ _ _ grown _ => pure (.list (grown.lists _ _ same))
  | _ => exact rejected

theorem request (depth : Nat) {u u' v v' : Value} (url : u.Like ρ u') (method : v.Like ρ v')
    (setup : Setup) :
    Follows T ρ Value.Like (Native.call setup depth .http [u, v])
      (Native.call setup depth .http [u', v']) := by
  refine bind (expectText depth .url url) fun σ address address' grown (same : address = address') => ?_
  subst same
  have rejected : Follows T σ Value.Like (Native.reject depth .get v) (Native.reject depth .get v') :=
    reject depth .get (method.mono grown)
  cases method with
  | text t =>
    split
    · exact fetch setup address
    · exact rejected
  | _ => exact rejected

/-- Built-in functions do the same with arguments that are alike. -/
theorem native (setup : Setup) (depth : Nat) (f : Native) {vs vs' : List Value}
    (arguments : List.Forall₂ (Value.Like ρ) vs vs') :
    Follows T ρ Value.Like (f.call setup depth vs) (f.call setup depth vs') := by
  -- the function and the number of its arguments decide on what is done
  cases arguments with
  | nil =>
    cases f with
    | clock => exact supplied fun h => (h.clock.next.1, { h with clock := h.clock.next.2 })
    | random => exact supplied fun h => (h.random.next.1, { h with random := h.random.next.2 })
    | _ => exact pure .nil
  | cons first rest =>
    cases rest with
    | nil =>
      cases f with
      | input => exact readLine depth first
      | len => exact length depth first
      | keys => exact listOf depth first Entry.key fun _ _ _ entry => entry.key
      | values => exact listOf depth first Entry.value fun _ _ _ entry => entry.value
      | read => exact bind (expectText depth .path first) fun _ _ _ _ same => same ▸ readFile setup _
      | _ => exact pure .nil
    | cons second rest =>
      cases rest with
      | nil =>
        cases f with
        | append => exact appendItem depth first second setup
        | write =>
          refine bind (expectText depth .path first) fun σ path path' grown (same : path = path') =>
            bind (expectText depth .content (second.mono grown)) fun _ text text' _
              (other : text = text') => ?_
          subst same other
          exact writeFile setup path text
        | http => exact request depth first second setup
        | _ => exact pure .nil
      | cons third rest =>
        cases rest with
        | nil =>
          cases f with
          | put => exact putEntry depth first second third setup
          | _ => exact pure .nil
        | cons _ _ => cases f <;> exact pure .nil

end Follows

end EvalM

end ContractScript
