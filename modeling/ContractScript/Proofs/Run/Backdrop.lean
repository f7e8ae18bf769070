/-
The same steps with something else going on around them, and with levels to spare.

A step may be taken while calls are in progress around it and after tests have been noted.
Nothing reads either: the calls in progress are only written down when a fault leaves a call,
and the tests only grow. So a step before another backdrop does the same, and a fault of it
has the calls of the backdrop on the outside of its stack.

A step that is given more levels does the same too, unless it had used up those it had. That it
had is visible at its end: nothing but a test catches a fault, so what runs no tests ends with
the failure that says so. The two facts are proved together, in one pass through evaluation,
for the runs of a discipline that lets no tests in.
-/
import ContractScript.Proofs.Program.Dropping
import ContractScript.Proofs.Run.Discipline
import ContractScript.Proofs.Run.Rebuilding

set_option autoImplicit false

namespace ContractScript

/-! ## Questions about values with more levels -/

namespace Store

variable {s : Store}

/-- More levels do not change how a value is shown. -/
theorem show?_mono {d : Nat} : ∀ {d' : Nat} {nested : Bool} {v : Value} {text : String}, d ≤ d' →
    s.show? d nested v = some text → s.show? d' nested v = some text := by
  induction d with
  | zero => exact fun _ h => (by cases h)
  | succ d ih =>
    intro d' nested v text le h
    obtain ⟨d', rfl⟩ : ∃ n, d' = n + 1 := ⟨d' - 1, by omega⟩
    have below : d ≤ d' := by omega
    cases v with
    | list id =>
      rw [show?] at h ⊢
      obtain ⟨texts, shown, rfl⟩ := Option.map_eq_some_iff.mp h
      rw [mapM_mono (fun _ _ item => ih below item) shown]
      rfl
    | map id =>
      rw [show?] at h ⊢
      obtain ⟨texts, shown, rfl⟩ := Option.map_eq_some_iff.mp h
      refine congrArg (Option.map _) (mapM_mono (fun e text entry => ?_) shown)
      -- an entry is shown if its key and its value are
      obtain ⟨key, hkey, rest⟩ := Option.bind_eq_some_iff.mp entry
      obtain ⟨value, hvalue, ended⟩ := Option.bind_eq_some_iff.mp rest
      rw [ih below hkey, Option.bind_eq_bind, Option.bind_some, ih below hvalue]
      exact ended
    | bool b => cases b <;> exact h
    | nil | num | text | function | native => exact h

theorem allPairs?_mono {α : Type} {test test' : α → α → Option Bool}
    (h : ∀ a b answer, test a b = some answer → test' a b = some answer) {pairs : List (α × α)}
    {answer : Bool} (answered : allPairs? test pairs = some answer) :
    allPairs? test' pairs = some answer := by
  induction pairs with
  | nil => exact answered
  | cons pair rest ih =>
    rw [allPairs?] at answered ⊢
    cases first : test pair.1 pair.2 with
    | none =>
      rw [first] at answered
      cases answered
    | some holds =>
      rw [first] at answered
      rw [h _ _ _ first]
      cases holds with
      | true => exact ih answered
      | false => exact answered

/-- More levels do not change whether two values are equal. -/
theorem equal?_mono {d : Nat} : ∀ {d' : Nat} {a b : Value} {answer : Bool}, d ≤ d' →
    s.equal? d a b = some answer → s.equal? d' a b = some answer := by
  induction d with
  | zero => exact fun _ h => (by cases h)
  | succ d ih =>
    intro d' a b answer le h
    obtain ⟨d', rfl⟩ : ∃ n, d' = n + 1 := ⟨d' - 1, by omega⟩
    -- the items are compared in one level less, and they have their answers already
    have pairs {ps : List (Value × Value)} (answered : allPairs? (s.equal? d) ps = some answer) :
        allPairs? (s.equal? d') ps = some answer :=
      allPairs?_mono (fun _ _ _ pair => ih (by omega) pair) answered
    cases a with
    | list x =>
      cases b with
      | list y =>
        rw [equal?] at h ⊢
        split at h
        · rename_i sizes
          rw [if_pos sizes]
          exact pairs h
        · rename_i sizes
          rw [if_neg sizes]
          exact h
      | _ => exact h
    | map x =>
      cases b with
      | map y =>
        rw [equal?] at h ⊢
        split at h
        · rename_i keys
          rw [if_pos keys]
          exact pairs h
        · rename_i keys
          rw [if_neg keys]
          exact h
      | _ => exact h
    | nil | bool | num | text | function | native => cases b <;> exact h

end Store

/-! ## Backdrops -/

/-- What there is around a step and before it: calls in progress, and tests noted so far. -/
structure Backdrop where
  frames : List Frame
  tests : List TestResult

/-- A state before a backdrop. -/
def Machine.over (m : Machine) (b : Backdrop) : Machine :=
  { m with frames := m.frames ++ b.frames, tests := b.tests }

/-- A failure inside the calls of a backdrop. -/
def Failure.over (b : Backdrop) : Failure → Failure
  | .fault f => .fault { f with stack := f.stack.map (b.frames.reverse ++ ·) }
  | .defect d => .defect d
  | .unfinished => .unfinished

/-- A failure because the levels of a run are used up. -/
def Failure.OutOfLevels : Failure → Prop
  | .fault f => f.cause = .stackOverflow
  | .defect d => d = .tooDeep
  | .unfinished => False

namespace EvalM

variable {α β : Type}

/-- The end of a step, as it is before a backdrop. -/
def overEnd (b : Backdrop) :
    EStateM.Result Failure Machine α → EStateM.Result Failure Machine α
  | .ok a m => .ok a (m.over b)
  | .error e m => .error (e.over b) (m.over b)

/-- A step has used up its levels. -/
def RanOut : EStateM.Result Failure Machine α → Prop
  | .error e _ => e.OutOfLevels
  | .ok _ _ => False

/-- Before any backdrop a step with more levels ends as one without, unless that one has used up its
levels. -/
def Elsewhere (more : Nat) (inv : Machine → Prop) (x y : EvalM α) : Prop :=
  ∀ b m, inv m → y (m.over b) = overEnd b (x m) ∨ (0 < more ∧ RanOut (x m))

/-- The invariant of every state. -/
def Anyhow (_ : Machine) : Prop := True

namespace Elsewhere

variable {more : Nat} {inv : Machine → Prop} {x y : EvalM α} {f g : α → EvalM β}

theorem of_eq (h : ∀ b m, y (m.over b) = overEnd b (x m)) : Elsewhere more inv x y :=
  fun b m _ => .inl (h b m)

/-- What holds of every state holds under an invariant. -/
theorem within (h : Elsewhere more Anyhow x y) : Elsewhere more inv x y :=
  fun b m _ => h b m trivial

theorem pure (a : α) : Elsewhere more inv (Pure.pure a) (Pure.pure a) :=
  .of_eq fun _ _ => rfl

theorem failAt (lexeme : Lexeme) (cause : Cause) :
    Elsewhere more inv (EvalM.failAt lexeme cause : EvalM α) (EvalM.failAt lexeme cause) :=
  .of_eq fun _ _ => rfl

theorem failHere (cause : Cause) :
    Elsewhere more inv (EvalM.failHere cause : EvalM α) (EvalM.failHere cause) :=
  .of_eq fun _ _ => rfl

theorem defect (d : Defect) :
    Elsewhere more inv (MonadExcept.throw (Failure.defect d) : EvalM α)
      (MonadExcept.throw (Failure.defect d)) :=
  .of_eq fun _ _ => rfl

theorem bind {Q : α → Prop} (hx : Elsewhere more inv x y) (keeps : Ensures inv Q x)
    (hf : ∀ a, Q a → Elsewhere more inv (f a) (g a)) :
    Elsewhere more inv (x >>= f) (y >>= g) := by
  intro b m hm
  show EStateM.bind y g (m.over b) = overEnd b (EStateM.bind x f m) ∨
    (0 < more ∧ RanOut (EStateM.bind x f m))
  unfold EStateM.bind
  rcases hx b m hm with same | ⟨spare, out⟩
  · rw [same]
    cases run : x m with
    | ok a m₁ =>
      obtain ⟨holds, result⟩ := keeps.of_ok hm run
      exact hf a result b m₁ holds
    | error e m₁ => exact .inl rfl
  · -- what has used up its levels goes no further
    cases run : x m with
    | ok a m₁ =>
      rw [run] at out
      exact out.elim
    | error e m₁ =>
      rw [run] at out
      exact .inr ⟨spare, out⟩

/-- Where every state will do, nothing has to be kept. -/
theorem andThen (hx : Elsewhere more Anyhow x y)
    (hf : ∀ a, Elsewhere more Anyhow (f a) (g a)) : Elsewhere more Anyhow (x >>= f) (y >>= g) := by
  have keeps : Ensures Anyhow (fun _ => True) x := by
    intro m _
    cases x m <;> simp only [Anyhow, and_self]
  exact hx.bind keeps fun a _ => hf a

/-- A step that looks at the state, but not at what a backdrop adds to it. -/
theorem getThen {f g : Machine → EvalM β} (blind : ∀ b m, g (m.over b) = g m)
    (h : ∀ m, inv m → Elsewhere more inv (f m) (g m)) :
    Elsewhere more inv (get >>= f) (get >>= g) := by
  intro b m hm
  show g (m.over b) (m.over b) = overEnd b (f m m) ∨ (0 < more ∧ RanOut (f m m))
  rw [blind]
  exact h m hm b m hm

/-- A step that looks at the state and changes it first. -/
theorem getSet {c : Machine → Machine} {f g : Machine → EvalM β}
    (changed : ∀ b m, c (m.over b) = (c m).over b) (blind : ∀ b m, g (m.over b) = g m)
    (h : ∀ m, Elsewhere more Anyhow (f m) (g m)) :
    Elsewhere more Anyhow (get >>= fun m => set (c m) >>= fun _ : PUnit => f m)
      (get >>= fun m => set (c m) >>= fun _ : PUnit => g m) := by
  intro b m _
  show g (m.over b) (c (m.over b)) = overEnd b (f m (c m)) ∨ (0 < more ∧ RanOut (f m (c m)))
  rw [blind, changed]
  exact h m b (c m) trivial

/-- A step that fails first if something is wrong. -/
theorem orFail {wrong : Bool} {cause : Cause} (h : Elsewhere more inv x y) :
    Elsewhere more inv (if wrong then EvalM.failHere cause >>= fun _ : Unit => x else x)
      (if wrong then EvalM.failHere cause >>= fun _ : Unit => y else y) := by
  split
  · exact .of_eq fun _ _ => rfl
  · exact h

/-! ## The places that swap -/

/-- A step inside something that changes the state before it and the end after it, in ways that take
no notice of a backdrop. -/
theorem around {wrap : EvalM α → EvalM α} {enter : Machine → Machine}
    (once : ∀ step m, wrap step m = wrap (fun _ => step (enter m)) m)
    (entered : ∀ b m, enter (m.over b) = (enter m).over b)
    (left : ∀ b m r, wrap (fun _ => overEnd b r) (m.over b) = overEnd b (wrap (fun _ => r) m))
    (out : ∀ m r, RanOut r → RanOut (wrap (fun _ => r) m))
    (enters : ∀ m, inv m → inv (enter m)) (h : Elsewhere more inv x y) :
    Elsewhere more inv (wrap x) (wrap y) := by
  intro b m hm
  rw [once y, once x, entered]
  rcases h b (enter m) (enters m hm) with same | ⟨spare, ran⟩
  · rw [same]
    exact .inl (left b m _)
  · exact .inr ⟨spare, out m _ ran⟩

theorem inScope {id : ScopeId} (enters : ∀ m, inv m → inv { m with scope := id })
    (h : Elsewhere more inv x y) : Elsewhere more inv (EvalM.inScope id x) (EvalM.inScope id y) :=
  around (fun _ _ => rfl) (fun _ _ => rfl) (fun _ _ r => by cases r <;> rfl)
    (fun _ r ran => by cases r <;> exact ran) enters h

theorem inImport {name : String} (enters : ∀ m, inv m → inv { m with importing := name :: m.importing })
    (h : Elsewhere more inv x y) :
    Elsewhere more inv (EvalM.inImport name x) (EvalM.inImport name y) :=
  around (fun _ _ => rfl) (fun _ _ => rfl) (fun _ _ r => by cases r <;> rfl)
    (fun _ r ran => by cases r <;> exact ran) enters h

/-- The calls of a backdrop are outside of the call that a fault leaves. -/
theorem inCall_overEnd (frame : Frame) (close : Lexeme) (b : Backdrop) (m : Machine)
    (r : EStateM.Result Failure Machine α) :
    EvalM.inCall frame close (fun _ => overEnd b r) (m.over b)
      = overEnd b (EvalM.inCall frame close (fun _ => r) m) := by
  have calls : (frame :: (m.frames ++ b.frames)).reverse
      = b.frames.reverse ++ (frame :: m.frames).reverse := by
    rw [← List.cons_append, List.reverse_append]
  unfold EvalM.inCall
  cases r with
  | ok a m₁ => rfl
  | error e m₁ =>
    cases e with
    | fault f =>
      obtain ⟨cause, lexeme, stack⟩ := f
      -- the first call that a fault leaves notes the calls, and the backdrop's are among them
      cases stack with
      | none => simp [overEnd, Failure.over, Machine.over, calls]
      | some frames => simp [overEnd, Failure.over, Machine.over]
    | defect d =>
      cases d with
      | tooDeep => simp [overEnd, Failure.over, Machine.over, calls]
      | _ => rfl
    | unfinished => rfl

theorem inCall {frame : Frame} {close : Lexeme}
    (enters : ∀ m, inv m → inv { m with frames := frame :: m.frames }) (h : Elsewhere more inv x y) :
    Elsewhere more inv (EvalM.inCall frame close x) (EvalM.inCall frame close y) := by
  refine around (fun _ _ => rfl) (fun _ _ => rfl) (inCall_overEnd frame close) (fun m r ran => ?_)
    enters h
  cases r with
  | ok a m₁ => exact ran.elim
  | error e m₁ =>
    cases e with
    | fault f => exact ran
    | defect d =>
      cases ran
      exact rfl
    | unfinished => exact ran.elim

/-! ## Questions about values -/

/-- A question with a budget of levels, to which more levels give no other answer. -/
theorem asked (ask : Nat → Store → Option α)
    (mono : ∀ s d d' a, d ≤ d' → ask d s = some a → ask d' s = some a) {d d' : Nat} (le : d ≤ d')
    (spare : more = 0 → d = d') :
    Elsewhere more inv (get >>= fun m : Machine => orTooDeep (ask d m.store))
      (get >>= fun m : Machine => orTooDeep (ask d' m.store)) := by
  refine getThen (fun _ _ => rfl) fun m _ => ?_
  cases answer : ask d m.store with
  | some a =>
    rw [mono m.store d d' a le answer]
    exact pure a
  | none =>
    -- without an answer the levels are used up, unless both have the same number of them
    intro b m₁ _
    by_cases none : more = 0
    · rw [← spare none, answer]
      exact .inl rfl
    · exact .inr ⟨Nat.pos_of_ne_zero none, rfl⟩

theorem shown (depth : Nat) (v : Value) :
    Elsewhere more inv (EvalM.shown depth v) (EvalM.shown (depth + more) v) :=
  asked (fun d s => s.show? d false v) (fun _ _ _ _ => Store.show?_mono) (by omega) (by omega)

theorem same (depth : Nat) (v w : Value) :
    Elsewhere more inv (EvalM.same depth v w) (EvalM.same (depth + more) v w) :=
  asked (fun d s => s.equal? d v w) (fun _ _ _ _ => Store.equal?_mono) (by omega) (by omega)

theorem keyOf (depth : Nat) (v : Value) :
    Elsewhere more inv (EvalM.keyOf depth v) (EvalM.keyOf (depth + more) v) :=
  asked (fun d s => s.key? d v) (fun _ _ _ _ => Store.key?_mono) (by omega) (by omega)

/-! ## Operators and built-in functions -/

theorem unaryOp (op : UnaryOp) (place : Place) (v : Value) :
    Elsewhere more inv (op.apply place v) (op.apply place v) := by
  cases op with
  | not => exact pure _
  | negate => cases v <;> exact .of_eq fun _ _ => rfl

theorem newList (xs : Array Value) :
    Elsewhere more inv (EvalM.newList xs) (EvalM.newList xs) :=
  .of_eq fun _ _ => rfl

theorem addValues (depth : Nat) (place : Place) (v w : Value) :
    Elsewhere more Anyhow (ContractScript.addValues depth place v w)
      (ContractScript.addValues (depth + more) place v w) := by
  unfold ContractScript.addValues
  split
  · exact pure _
  · exact (shown depth w).andThen fun _ => pure _
  · exact (shown depth v).andThen fun _ => pure _
  · exact getThen (fun _ _ => rfl) fun _ _ => newList _
  · exact failAt _ _

theorem onNumbers (op : BinaryOp) (place : Place) (a b : Float) :
    Elsewhere more inv (op.onNumbers place a b) (op.onNumbers place a b) := by
  cases op
  case divide =>
    show Elsewhere more inv (if Number.isZero b then _ else _) (if Number.isZero b then _ else _)
    split
    · exact failAt _ _
    · exact pure _
  case remainder =>
    show Elsewhere more inv (if Number.isZero b then _ else _) (if Number.isZero b then _ else _)
    split
    · exact failAt _ _
    · split
      · exact pure _
      · exact defect _
  all_goals exact pure _

theorem binaryOp (op : BinaryOp) (depth : Nat) (place : Place) (v w : Value) :
    Elsewhere more Anyhow (op.apply depth place v w) (op.apply (depth + more) place v w) := by
  unfold BinaryOp.apply
  split
  · exact addValues depth place v w
  · exact (same depth v w).andThen fun _ => pure _
  · exact (same depth v w).andThen fun _ => pure _
  · split
    · exact onNumbers op place _ _
    · exact failAt _ _

theorem subscriptOf (place : Place) (v : Value) :
    Elsewhere more inv (ContractScript.subscriptOf place v) (ContractScript.subscriptOf place v) := by
  unfold ContractScript.subscriptOf
  split
  · split
    · exact pure _
    · exact failAt _ _
  · exact failAt _ _

theorem positionIn (place : Place) (size : Nat) (key : Value) :
    Elsewhere more Anyhow (ContractScript.positionIn place size key)
      (ContractScript.positionIn place size key) := by
  refine (subscriptOf place key).andThen fun i => ?_
  split
  · exact pure _
  · exact failAt _ _

theorem indexValue (depth : Nat) (place : Place) (collection key : Value) :
    Elsewhere more Anyhow (ContractScript.indexValue depth place collection key)
      (ContractScript.indexValue (depth + more) place collection key) := by
  unfold ContractScript.indexValue
  split
  · exact getThen (fun _ _ => rfl) fun _ _ => (positionIn place _ key).andThen fun _ => pure _
  · exact (positionIn place _ key).andThen fun _ => pure _
  · refine (keyOf depth key).andThen fun k => getThen (fun _ _ => rfl) fun m _ => ?_
    split
    · exact pure _
    · exact failAt _ _
  · exact failAt _ _

theorem sliceBounds (place : Place) (size : Nat) (first last : Value) :
    Elsewhere more Anyhow (ContractScript.sliceBounds place size first last)
      (ContractScript.sliceBounds place size first last) := by
  refine (subscriptOf place first).andThen fun low => (subscriptOf place last).andThen fun high => ?_
  split
  · exact pure _
  · exact failAt _ _

theorem sliceValue (place : Place) (collection first last : Value) :
    Elsewhere more Anyhow (ContractScript.sliceValue place collection first last)
      (ContractScript.sliceValue place collection first last) := by
  unfold ContractScript.sliceValue
  split
  · exact getThen (fun _ _ => rfl) fun _ _ => (sliceBounds place _ first last).andThen fun _ => newList _
  · exact (sliceBounds place _ first last).andThen fun _ => pure _
  · exact failAt _ _

theorem reject (depth : Nat) (wanted : Wanted) (v : Value) :
    Elsewhere more Anyhow (Native.reject depth wanted v : EvalM α)
      (Native.reject (depth + more) wanted v) :=
  (shown depth v).andThen fun _ => failHere _

theorem expectMap (depth : Nat) (v : Value) :
    Elsewhere more Anyhow (Native.expectMap depth v) (Native.expectMap (depth + more) v) := by
  unfold Native.expectMap
  split
  · exact pure _
  · exact reject depth _ _

theorem expectText (depth : Nat) (wanted : Wanted) (v : Value) :
    Elsewhere more Anyhow (Native.expectText depth wanted v)
      (Native.expectText (depth + more) wanted v) := by
  unfold Native.expectText
  split
  · exact pure _
  · exact reject depth _ _

theorem fileProblem (cause : String → Cause) (problem : FileTree.Problem) :
    Elsewhere more inv (Native.fileProblem cause problem : EvalM α)
      (Native.fileProblem cause problem) := by
  cases problem <;> exact .of_eq fun _ _ => rfl

theorem readLine (depth : Nat) (prompt : Value) :
    Elsewhere more Anyhow (Native.readLine depth prompt) (Native.readLine (depth + more) prompt) := by
  refine (shown depth prompt).andThen fun text => andThen (.of_eq fun _ _ => rfl) fun _ => .of_eq ?_
  intro b m
  -- what was typed is the same before every backdrop
  obtain ⟨store, scope, frames, directory, importing, tests, events, host⟩ := m
  obtain ⟨files, current, home, typed, clock, random, network⟩ := host
  cases typed with
  | nil => rfl
  | cons first rest => cases first <;> rfl

theorem length (depth : Nat) (v : Value) :
    Elsewhere more Anyhow (Native.length depth v) (Native.length (depth + more) v) := by
  refine getThen (fun _ _ => rfl) fun m _ => ?_
  dsimp only
  split
  · exact pure _
  · exact pure _
  · exact pure _
  · exact reject depth _ _

theorem readFile (setup : Setup) (path : String) :
    Elsewhere more inv (Native.readFile setup path) (Native.readFile setup path) := by
  refine getThen (fun _ _ => rfl) fun m _ => ?_
  split
  · exact pure _
  · exact fileProblem _ _

theorem writeFile (setup : Setup) (path content : String) :
    Elsewhere more inv (Native.writeFile setup path content)
      (Native.writeFile setup path content) := by
  refine getThen (fun _ _ => rfl) fun m _ => ?_
  split
  · exact .of_eq fun _ _ => rfl
  · exact fileProblem _ _

theorem fetch (setup : Setup) (url : String) :
    Elsewhere more Anyhow (Native.fetch setup url) (Native.fetch setup url) := by
  unfold Native.fetch
  dsimp only
  refine getSet (fun _ _ => rfl) (fun _ _ => rfl) fun m => ?_
  split
  · exact pure _
  · exact defect _
  · exact failHere _
  · exact pure _

/-- Built-in functions do the same before every backdrop. -/
theorem native (setup : Setup) (depth : Nat) (f : Native) (arguments : List Value) :
    Elsewhere more Anyhow (f.call setup depth arguments) (f.call setup (depth + more) arguments) := by
  unfold Native.call
  split
  · exact readLine depth _
  · exact length depth _
  · exact .of_eq fun _ _ => rfl
  · exact .of_eq fun _ _ => rfl
  · exact (expectMap depth _).andThen fun _ => getThen (fun _ _ => rfl) fun _ _ => newList _
  · exact (expectMap depth _).andThen fun _ => getThen (fun _ _ => rfl) fun _ _ => newList _
  · exact (expectMap depth _).andThen fun _ => (keyOf depth _).andThen fun _ => .of_eq fun _ _ => rfl
  · split
    · exact .of_eq fun _ _ => rfl
    · exact reject depth _ _
  · exact (expectText depth _ _).andThen fun _ => readFile setup _
  · exact (expectText depth _ _).andThen fun _ => (expectText depth _ _).andThen fun _ =>
      writeFile setup _ _
  · refine (expectText depth _ _).andThen fun _ => ?_
    split
    · exact fetch setup _
    · exact reject depth _ _
  · exact pure _

/-! ## Parts of evaluation -/

theorem note (e : Event) : Elsewhere more inv (EvalM.note e) (EvalM.note e) :=
  .of_eq fun _ _ => rfl

theorem trace (setup : Setup) (text : String) :
    Elsewhere more inv (EvalM.trace setup text) (EvalM.trace setup text) := by
  unfold EvalM.trace
  split
  · exact note _
  · exact pure _

theorem onStore (c : Store → α × Store) : Elsewhere more inv (EvalM.onStore c) (EvalM.onStore c) :=
  .of_eq fun _ _ => rfl

theorem define (id : ScopeId) (name : String) (v : Value) :
    Elsewhere more inv (EvalM.define id name v) (EvalM.define id name v) :=
  .of_eq fun _ _ => rfl

theorem lookup (name : Lexeme) : Elsewhere more inv (EvalM.lookup name) (EvalM.lookup name) := by
  refine getThen (fun _ _ => rfl) fun m _ => ?_
  split
  · exact pure _
  · exact failAt _ _

theorem lookupQualified (spaces : List Lexeme) (name : Lexeme) :
    Elsewhere more inv (EvalM.lookupQualified spaces name) (EvalM.lookupQualified spaces name) := by
  refine getThen (fun _ _ => rfl) fun m _ => ?_
  split
  · exact pure _
  · exact failAt _ _

theorem assign (name : Lexeme) (v : Value) :
    Elsewhere more inv (EvalM.assign name v) (EvalM.assign name v) := by
  refine getThen (fun _ _ => rfl) fun m _ => ?_
  split
  · exact define _ _ _
  · exact failAt _ _

theorem iterate {condition condition' : EvalM Bool} {body body' : EvalM Signal} {P : Bool → Prop}
    {Q : Signal → Prop} (hcondition : Elsewhere more inv condition condition')
    (asks : Ensures inv P condition) (hbody : Elsewhere more inv body body')
    (goes : Ensures inv Q body) (rounds : Nat) :
    Elsewhere more inv (EvalM.iterate condition body rounds)
      (EvalM.iterate condition' body' rounds) := by
  induction rounds with
  | zero => exact .of_eq fun _ _ => rfl
  | succ rounds ih =>
    refine hcondition.bind asks fun holds _ => ?_
    split
    · refine hbody.bind goes fun signal _ => ?_
      cases signal with
      | next => exact ih
      | leave => exact pure _
      | yield v => exact pure _
    · exact pure _

theorem sequence {run run' : Stmt → EvalM Signal} {Q : Signal → Prop} {body : List Stmt}
    (h : ∀ s ∈ body, Elsewhere more inv (run s) (run' s)) (goes : ∀ s ∈ body, Ensures inv Q (run s)) :
    Elsewhere more inv (EvalM.sequence run body) (EvalM.sequence run' body) := by
  induction body with
  | nil => exact pure _
  | cons s rest ih =>
    rw [List.forall_mem_cons] at h goes
    refine h.1.bind goes.1 fun signal _ => ?_
    cases signal with
    | next => exact ih h.2 goes.2
    | leave => exact pure _
    | yield v => exact pure _

section Values

variable {value value' : Expr → EvalM Value} {Q : Value → Prop}
  (h : ∀ e, Elsewhere more inv (value e) (value' e)) (goes : ∀ e, Ensures inv Q (value e))
include h goes

theorem allHold (conditions : List Expr) :
    Elsewhere more inv (EvalM.allHold value conditions) (EvalM.allHold value' conditions) := by
  induction conditions with
  | nil => exact pure _
  | cons e rest ih =>
    refine (h e).bind (goes e) fun v _ => ?_
    split
    · exact ih
    · exact pure _

theorem values {P : List Value → Prop} (kept : ∀ items, Ensures inv P (EvalM.values value items))
    (items : List Expr) :
    Elsewhere more inv (EvalM.values value items) (EvalM.values value' items) := by
  induction items with
  | nil => exact pure _
  | cons e rest ih => exact (h e).bind (goes e) fun _ _ => ih.bind (kept rest) fun _ _ => pure _

theorem entries (depth : Nat) (pairs : List (Expr × Expr)) :
    ∀ content : OrderedMap Key Entry, Elsewhere more inv (EvalM.entries depth value content pairs)
      (EvalM.entries (depth + more) value' content pairs) := by
  induction pairs with
  | nil => exact fun _ => pure _
  | cons pair rest ih =>
    exact fun _ => (h pair.1).bind (goes pair.1) fun k _ => (h pair.2).bind (goes pair.2) fun v _ =>
      (keyOf depth k).bind (.keyOf depth k) fun _ _ => ih _

end Values

theorem bindArguments (id : ScopeId) (parameters : List Lexeme) : ∀ arguments : List Value,
    Elsewhere more Anyhow (EvalM.bind id parameters arguments)
      (EvalM.bind id parameters arguments) := by
  induction parameters with
  | nil =>
    intro arguments
    cases arguments <;> exact pure ()
  | cons p ps ih =>
    intro arguments
    cases arguments with
    | nil => exact pure ()
    | cons v vs => exact (define id p.text v).andThen fun _ => ih vs

theorem moduleDeclarations (path : Lexeme) (pathText : String) (source : ModuleSource) :
    Elsewhere more inv (EvalM.moduleDeclarations path pathText source)
      (EvalM.moduleDeclarations path pathText source) := by
  unfold EvalM.moduleDeclarations
  dsimp only
  split
  · exact pure _
  · exact failAt _ _

theorem findModule (setup : Setup) (path : Lexeme) (pathText : String) :
    Elsewhere more inv (EvalM.findModule setup path pathText)
      (EvalM.findModule setup path pathText) := by
  refine getThen (fun _ _ => rfl) fun m _ => ?_
  split
  · exact failAt _ _
  · exact defect _
  · exact defect _
  · exact failAt _ _
  · split
    · exact failAt _ _
    · exact pure _

theorem importTarget (setup : Setup) (space : Option Lexeme) :
    Elsewhere more inv (EvalM.importTarget setup space) (EvalM.importTarget setup space) := by
  cases space <;> exact .of_eq fun _ _ => rfl

theorem enterDirectory (directory : Option String) :
    Elsewhere more inv (EvalM.enterDirectory directory) (EvalM.enterDirectory directory) := by
  cases directory <;> exact .of_eq fun _ _ => rfl

end Elsewhere

end EvalM

open EvalM

/-! ## Evaluation -/

namespace Discipline

variable {setup : Setup} (D : Discipline setup)

/-- The parts of evaluation at a number of levels, and at one that is larger by so many, before any
backdrop. -/
structure ElsewhereToo (more depth depth' : Nat) : Prop where
  evaluate : ∀ e, Elsewhere more D.Holds (evaluate setup depth e) (evaluate setup depth' e)
  callValue : ∀ place f arguments, D.value f → (∀ v ∈ arguments, D.value v) →
    Elsewhere more D.Holds (callValue setup depth place f arguments)
      (callValue setup depth' place f arguments)
  invoke : ∀ f arguments, D.value f → (∀ v ∈ arguments, D.value v) →
    Elsewhere more D.Holds (invoke setup depth f arguments) (invoke setup depth' f arguments)
  execute : ∀ s, D.code s → Elsewhere more D.Holds (execute setup depth s) (execute setup depth' s)
  importModule : ∀ path place space, Elsewhere more D.Holds (importModule setup depth path place space)
    (importModule setup depth' path place space)

section Level

variable {D} {more depth : Nat} (ih : D.ElsewhereToo more depth (depth + more))
include ih

theorem evaluate_elsewhere (e : Expr) :
    Elsewhere more D.Holds (evaluate setup (depth + 1) e) (evaluate setup (depth + more + 1) e) := by
  -- operands are evaluated in the same order, and each leaves a state that obeys the discipline
  have keeps := D.rules depth
  cases e with
  | literal value => exact .pure _
  | group inner => exact ih.evaluate inner
  | «variable» name => exact .lookup name
  | qualified spaces name => exact .lookupQualified spaces name
  | assign name value =>
    exact .bind (ih.evaluate value) (keeps.evaluate value) fun v hv =>
      .bind (.assign name v) (D.ensures_assign name hv) fun _ _ => .pure v
  | unary op place operand =>
    exact .bind (ih.evaluate operand) (keeps.evaluate operand) fun v _ => .unaryOp op place v
  | binary op place left right =>
    exact .bind (ih.evaluate left) (keeps.evaluate left) fun v _ =>
      .bind (ih.evaluate right) (keeps.evaluate right) fun w _ => (Elsewhere.binaryOp op depth place v w).within
  | logical op place left right =>
    refine .bind (ih.evaluate left) (keeps.evaluate left) fun v _ => ?_
    cases op with
    | or =>
      dsimp only
      split
      · exact .pure v
      · exact ih.evaluate right
    | and =>
      dsimp only
      split
      · exact ih.evaluate right
      · exact .pure v
  | choice condition whenTrue whenFalse =>
    refine .bind (ih.evaluate condition) (keeps.evaluate condition) fun v _ => ?_
    split
    · exact ih.evaluate whenTrue
    · exact ih.evaluate whenFalse
  | call callee close arguments =>
    have kept := D.ensures_values keeps.evaluate
    exact .bind (ih.evaluate callee) (keeps.evaluate callee) fun f hf =>
      .bind (.values ih.evaluate keeps.evaluate kept arguments) (kept arguments) fun vs hvs =>
      ih.callValue close f vs hf hvs
  | list items =>
    have kept := D.ensures_values keeps.evaluate
    exact .bind (.values ih.evaluate keeps.evaluate kept items) (kept items) fun vs _ => .newList _
  | map pairs =>
    have kept := D.ensures_entries depth keeps.evaluate pairs .empty fun _ he => absurd he List.not_mem_nil
    exact .bind (.entries ih.evaluate keeps.evaluate depth pairs .empty) kept fun _ _ =>
      .of_eq fun _ _ => rfl
  | index collection bracket key =>
    exact .bind (ih.evaluate collection) (keeps.evaluate collection) fun c _ =>
      .bind (ih.evaluate key) (keeps.evaluate key) fun k _ => (Elsewhere.indexValue depth bracket c k).within
  | slice collection bracket first last =>
    exact .bind (ih.evaluate collection) (keeps.evaluate collection) fun c _ =>
      .bind (ih.evaluate first) (keeps.evaluate first) fun low _ =>
      .bind (ih.evaluate last) (keeps.evaluate last) fun high _ =>
      (Elsewhere.sliceValue bracket c low high).within

theorem callValue_elsewhere (place : Place) (f : Value) (arguments : List Value) (hf : D.value f)
    (hargs : ∀ v ∈ arguments, D.value v) :
    Elsewhere more D.Holds (callValue setup (depth + 1) place f arguments)
      (callValue setup (depth + more + 1) place f arguments) := by
  rw [callValue_succ, callValue_succ]
  refine .getThen (fun _ _ => rfl) fun m _ => ?_
  split
  · exact .failAt _ _
  · split
    · exact .failAt _ _
    · exact .inCall (fun _ hm => hm) (ih.invoke f arguments hf hargs)

theorem invoke_elsewhere (f : Value) (arguments : List Value) (hf : D.value f)
    (hargs : ∀ v ∈ arguments, D.value v) :
    Elsewhere more D.Holds (invoke setup (depth + 1) f arguments)
      (invoke setup (depth + more + 1) f arguments) := by
  have keeps := D.rules depth
  cases f with
  | native g => exact (Elsewhere.native setup depth g arguments).within
  | function id =>
    refine .getThen (fun _ _ => rfl) fun m hm => ?_
    dsimp only
    split
    · exact .pure _
    · rename_i c found
      obtain ⟨hscope, hcode⟩ := D.closure m.store id c hm.1 hf found
      refine .bind (.onStore _) (D.ensures_newScope hscope) fun scope hinner => ?_
      have enters (m : Machine) (hm : D.Holds m) : D.Holds { m with scope := scope } :=
        ⟨hm.1, hm.2.1, hm.2.2.1, hinner⟩
      -- conditions and body stand in the scope of the call, which is put back behind each of them
      have contract (conditions : List Expr) := D.ensures_inScope hinner
        (D.ensures_allHold keeps.evaluate conditions)
      have body (s : Stmt) (member : s ∈ c.body) := keeps.execute s (hcode s member)
      refine .bind (Elsewhere.bindArguments scope _ arguments).within
        (D.ensures_bindArguments hinner _ hargs) fun _ _ =>
        .bind (.inScope enters (.allHold ih.evaluate keeps.evaluate _)) (contract _) fun before _ =>
        .orFail (.bind (.inScope enters (.sequence (fun s hs => ih.execute s (hcode s hs)) body))
          (D.ensures_inScope hinner (D.ensures_sequence body)) fun signal hsignal => ?_)
      exact .bind (.define scope _ _) (D.ensures_define hinner (D.value_of_carries signal hsignal))
        fun _ _ => .bind (.inScope enters (.allHold ih.evaluate keeps.evaluate _)) (contract _)
        fun after _ => .orFail (.pure _)
  | _ => exact .pure _

theorem execute_elsewhere (free : ∀ s, D.code s → s.TestFree) (s : Stmt) (hs : D.code s) :
    Elsewhere more D.Holds (execute setup (depth + 1) s) (execute setup (depth + more + 1) s) := by
  have keeps := D.rules depth
  cases s with
  | expression value => exact .bind (ih.evaluate value) (keeps.evaluate value) fun _ _ => .pure _
  | print value =>
    exact .bind (ih.evaluate value) (keeps.evaluate value) fun v _ =>
      .bind (.shown depth v) (.shown depth v) fun _ _ => .of_eq fun _ _ => rfl
  | var name value =>
    cases value with
    | none => exact .of_eq fun _ _ => rfl
    | some e => exact .bind (ih.evaluate e) (keeps.evaluate e) fun _ _ => .of_eq fun _ _ => rfl
  | block body =>
    refine .getThen (fun _ _ => rfl) fun m hm =>
      .bind (.onStore _) (D.ensures_newScope hm.2.2.2) fun scope hscope => ?_
    have each (t : Stmt) (member : t ∈ body) : D.code t := D.block body hs t member
    exact .inScope (fun _ hm => ⟨hm.1, hm.2.1, hm.2.2.1, hscope⟩)
      (.sequence (fun t ht => ih.execute t (each t ht)) fun t ht => keeps.execute t (each t ht))
  | branch condition whenTrue whenFalse =>
    refine .bind (ih.evaluate condition) (keeps.evaluate condition) fun c _ => ?_
    split
    · exact ih.execute whenTrue (D.branchTrue condition whenTrue whenFalse hs)
    · split
      · exact ih.execute _ (D.branchFalse condition whenTrue _ hs)
      · exact .pure _
  | loop condition body =>
    have inner := D.loop condition body hs
    -- the rounds of a loop are counted apart from levels, so both runs have the same number
    have asks : Ensures D.Holds (fun _ => True)
        (evaluate setup depth condition >>= fun v => pure v.isTruthy) :=
      .bind (keeps.evaluate condition) fun _ _ => .pure trivial
    exact .iterate (.bind (ih.evaluate condition) (keeps.evaluate condition) fun _ _ => .pure _) asks
      (ih.execute body inner) (keeps.execute body inner) _
  | leave place => exact .pure _
  | yield place value =>
    cases value with
    | none => exact .pure _
    | some e => exact .bind (ih.evaluate e) (keeps.evaluate e) fun _ _ => .pure _
  | function signature body => exact .of_eq fun _ _ => rfl
  | contract kind place clauses =>
    refine .bind (.allHold ih.evaluate keeps.evaluate clauses.conditions)
      (D.ensures_allHold keeps.evaluate clauses.conditions) fun holds _ => ?_
    split
    · exact .pure _
    · cases kind with
      | assertion => exact .failAt _ _
      | check => exact .of_eq fun _ _ => rfl
  | load path place space =>
    exact .bind (ih.importModule path place space) (keeps.importModule path place space)
      fun _ _ => .pure _
  | test name place body => exact (free _ hs).elim

theorem importModule_elsewhere (path : String) (place : Place) (space : Option Lexeme) :
    Elsewhere more D.Holds (importModule setup (depth + 1) path place space)
      (importModule setup (depth + more + 1) path place space) := by
  rw [importModule_succ, importModule_succ]
  have keeps := D.rules depth
  refine .bind (.findModule setup _ path) (D.ensures_findModule _ path) fun source offered =>
    .bind (.trace setup _) (D.ensures_trace _) fun _ _ => .inImport (fun _ hm => hm) ?_
  refine .bind (.moduleDeclarations _ path source) (D.ensures_moduleDeclarations _ path offered)
    fun program hcode => .bind (.importTarget setup space) (D.ensures_importTarget space)
    fun target htarget => .bind (.enterDirectory source.directory)
    (D.ensures_enterDirectory source.directory) fun _ _ => ?_
  have each (s : Stmt) (member : s ∈ program) := keeps.execute s (hcode s member)
  exact .bind (.inScope (fun _ hm => ⟨hm.1, hm.2.1, hm.2.2.1, htarget⟩)
      (.sequence (fun s hs => ih.execute s (hcode s hs)) each))
    (D.ensures_inScope htarget (D.ensures_sequence each)) fun _ _ => .pure _

end Level

/-- Without levels there is nothing but the failure that says so. -/
theorem elsewhere_of_none {α : Type} {inv : Machine → Prop} (more : Nat) (run : Nat → EvalM α)
    (none : run 0 = MonadExcept.throw (Failure.defect .tooDeep)) :
    Elsewhere more inv (run 0) (run more) := by
  intro b m _
  by_cases spare : more = 0
  · rw [spare, none]
    exact .inl rfl
  · rw [none]
    exact .inr ⟨Nat.pos_of_ne_zero spare, rfl⟩

/-- Under a discipline that lets no tests in, evaluation does the same with more levels and before any
backdrop. -/
theorem elsewhere (free : ∀ s, D.code s → s.TestFree) (more depth : Nat) :
    D.ElsewhereToo more depth (depth + more) := by
  induction depth with
  | zero =>
    rw [Nat.zero_add]
    exact
      { evaluate := fun e => elsewhere_of_none more (evaluate setup · e) rfl
        callValue := fun place f vs _ _ => elsewhere_of_none more (callValue setup · place f vs) rfl
        invoke := fun f vs _ _ => elsewhere_of_none more (invoke setup · f vs) rfl
        execute := fun s _ => elsewhere_of_none more (execute setup · s) rfl
        importModule := fun path place space =>
          elsewhere_of_none more (importModule setup · path place space) rfl }
  | succ depth ih =>
    rw [Nat.add_right_comm]
    exact
      { evaluate := evaluate_elsewhere ih
        callValue := callValue_elsewhere ih
        invoke := invoke_elsewhere ih
        execute := execute_elsewhere ih free
        importModule := importModule_elsewhere ih }

end Discipline

end ContractScript
