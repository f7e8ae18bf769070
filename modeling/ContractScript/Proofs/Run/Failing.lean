/-
When a step fails.

A fault is raised by one operation and then leaves the steps around it. This file says,
for everything that evaluation is built from, when it ends in a fault: a sequence if its
first part does, or its second part behind a first part that ended well; items in turn if
one of them that is reached does. The second half is about the operations that raise
faults. Such a fault notes no calls, and it is either located at a lexeme of the operation
or, for the built-in functions, nowhere yet. Only imports raise faults about modules.
-/
import ContractScript.Proofs.Run.Trail

set_option autoImplicit false

namespace ContractScript

open EvalM

/-! ## Steps that fail -/

/-- Whether something is wrong with a module that was to be imported. -/
def Cause.ofImport : Cause → Bool
  | .importRefused _ _ | .moduleNotFound _ | .circularImport _ | .moduleErrors _ _ => true
  | _ => false

/-- What a fault becomes when it leaves a call. -/
def Fault.leaving (f : Fault) (close : Lexeme) (frames : List Frame) : Fault :=
  ⟨f.cause, f.lexeme <|> some close, f.stack <|> some frames.reverse⟩

namespace EvalM

variable {α β : Type} {m : Machine} {f : Fault}

/-- A step ends in a fault. -/
def Fails (step : EvalM α) (m : Machine) (f : Fault) : Prop :=
  ∃ m', step m = .error (.fault f) m'

/-- A step ends in one way only. -/
theorem Fails.unique {step : EvalM α} {f' : Fault} (h : Fails step m f) (h' : Fails step m f') :
    f = f' := by
  obtain ⟨m₁, ran⟩ := h
  obtain ⟨m₂, ran'⟩ := h'
  rw [ran] at ran'
  cases ran'
  rfl

theorem fails_bind {x : EvalM α} {g : α → EvalM β} :
    Fails (x >>= g) m f ↔ Fails x m f ∨ ∃ a m₁, x m = .ok a m₁ ∧ Fails (g a) m₁ f := by
  cases run : x m with
  | ok a m₁ =>
    have goes : (x >>= g) m = g a m₁ := bind_ok run
    constructor
    · rintro ⟨m', h⟩
      rw [goes] at h
      exact .inr ⟨a, m₁, rfl, m', h⟩
    · rintro (⟨m', h⟩ | ⟨b, m₂, same, m', h⟩)
      · rw [run] at h
        cases h
      · cases same
        rw [← goes] at h
        exact ⟨m', h⟩
  | error e m₁ =>
    have stops : (x >>= g) m = .error e m₁ := bind_error run
    constructor
    · rintro ⟨m', h⟩
      rw [stops] at h
      cases h
      exact .inl ⟨m₁, run⟩
    · rintro (⟨m', h⟩ | ⟨b, m₂, same, -⟩)
      · rw [run] at h
        cases h
        exact ⟨m₁, stops⟩
      · cases same

@[simp]
theorem fails_pure (a : α) : Fails (pure a : EvalM α) m f ↔ False := by
  constructor
  · rintro ⟨m', h⟩
    cases h
  · exact False.elim

@[simp]
theorem fails_throw (e : Failure) : Fails (throw e : EvalM α) m f ↔ e = .fault f := by
  constructor
  · rintro ⟨m', h⟩
    cases h
    rfl
  · rintro rfl
    exact ⟨m, rfl⟩

@[simp]
theorem fails_failAt (lexeme : Lexeme) (cause : Cause) :
    Fails (failAt lexeme cause : EvalM α) m f ↔ f = ⟨cause, some lexeme, none⟩ := by
  unfold failAt
  rw [fails_throw, Failure.at, Failure.fault.injEq, eq_comm]

@[simp]
theorem fails_failHere (cause : Cause) :
    Fails (failHere cause : EvalM α) m f ↔ f = ⟨cause, none, none⟩ := by
  unfold failHere
  rw [fails_throw, Failure.unlocated, Failure.fault.injEq, eq_comm]

/-- A step that fails first if something is wrong. -/
theorem fails_orFail {wrong : Bool} {cause : Cause} {next : EvalM α} :
    Fails (if wrong then failHere cause >>= fun _ : Unit => next else next) m f ↔
      (wrong = true ∧ f = ⟨cause, none, none⟩) ∨ (wrong = false ∧ Fails next m f) := by
  cases wrong with
  | false => simp
  | true =>
    rw [if_pos rfl, fails_bind, fails_failHere]
    constructor
    · rintro (h | ⟨_, _, ran, -⟩)
      · exact .inl ⟨rfl, h⟩
      · cases ran
    · rintro (⟨-, h⟩ | ⟨right, -⟩)
      · exact .inl h
      · cases right

theorem fails_inScope {step : EvalM α} {scope : ScopeId} :
    Fails (inScope scope step) m f ↔ Fails step { m with scope := scope } f := by
  unfold Fails inScope restoring
  dsimp only
  cases step { m with scope := scope } with
  | ok a m₁ => simp
  | error e m₁ => simp

theorem fails_inImport {step : EvalM α} {name : String} :
    Fails (inImport name step) m f ↔ Fails step { m with importing := name :: m.importing } f := by
  unfold Fails inImport restoring
  dsimp only
  cases step { m with importing := name :: m.importing } with
  | ok a m₁ => simp
  | error e m₁ => simp

/-- A call fails as what it does, with what was missing filled in, or because there are no levels
left. -/
theorem fails_inCall {step : EvalM α} {frame : Frame} {close : Lexeme} :
    Fails (inCall frame close step) m f ↔
      (∃ f', Fails step { m with frames := frame :: m.frames } f' ∧
        f = f'.leaving close (frame :: m.frames)) ∨
      ((∃ m', step { m with frames := frame :: m.frames } = .error (.defect .tooDeep) m') ∧
        f = ⟨.stackOverflow, some close, some (frame :: m.frames).reverse⟩) := by
  unfold Fails inCall
  dsimp only
  cases step { m with frames := frame :: m.frames } with
  | ok a m₁ => simp
  | error e m₁ =>
    cases e with
    | fault f' => simp [Fault.leaving, eq_comm]
    | defect d => cases d <;> simp [eq_comm]
    | unfinished => simp

/-! ## Items in turn -/

/-- Items are run in turn, and one that is reached fails. -/
def FailsInTurn {ι : Type} (run : ι → EvalM α) (goOn : α → Prop) (items : List ι) (m : Machine)
    (f : Fault) : Prop :=
  ∃ i m₁, InTurn run goOn items m i m₁ ∧ Fails (run i) m₁ f

section InTurn

variable {ι : Type} {run : ι → EvalM α} {goOn : α → Prop}

@[simp]
theorem failsInTurn_nil : FailsInTurn run goOn [] m f ↔ False := by
  constructor
  · rintro ⟨i, m₁, reached, -⟩
    cases reached
  · exact False.elim

theorem failsInTurn_cons {i : ι} {rest : List ι} : FailsInTurn run goOn (i :: rest) m f ↔
    Fails (run i) m f ∨ ∃ a m₁, run i m = .ok a m₁ ∧ goOn a ∧ FailsInTurn run goOn rest m₁ f := by
  constructor
  · rintro ⟨j, m', reached, h⟩
    cases reached with
    | first => exact .inl h
    | later ran goes further => exact .inr ⟨_, _, ran, goes, j, m', further, h⟩
  · rintro (h | ⟨a, m₁, ran, goes, j, m', further, h⟩)
    · exact ⟨i, m, .first, h⟩
    · exact ⟨j, m', .later ran goes further, h⟩

/-- A way to run a list fails in turn if it runs the first item and then, if that is a reason to go
on, the others, and does nothing that fails otherwise. -/
theorem fails_iff_inTurn {β : Type} {all : List ι → EvalM β} (nil : ∀ m, ¬ Fails (all []) m f)
    (cons : ∀ i rest m, Fails (all (i :: rest)) m f ↔ Fails (run i) m f ∨
      ∃ a m₁, run i m = .ok a m₁ ∧ goOn a ∧ Fails (all rest) m₁ f)
    (items : List ι) : ∀ m, Fails (all items) m f ↔ FailsInTurn run goOn items m f := by
  induction items with
  | nil => exact fun m => iff_of_false (nil m) failsInTurn_nil.mp
  | cons i rest ih =>
    intro m
    rw [cons, failsInTurn_cons]
    simp only [ih]

end InTurn

theorem fails_sequence {run : Stmt → EvalM Signal} {body : List Stmt} :
    Fails (sequence run body) m f ↔
      FailsInTurn run (fun signal => signal = .next) body m f := by
  refine fails_iff_inTurn (fun m => ?_) (fun s rest m => ?_) body m
  · simp [sequence]
  · rw [sequence, fails_bind]
    refine or_congr .rfl (exists_congr fun signal => exists_congr fun m₁ => and_congr_right fun _ => ?_)
    cases signal <;> simp

theorem fails_allHold {value : Expr → EvalM Value} {conditions : List Expr} :
    Fails (allHold value conditions) m f ↔
      FailsInTurn value (fun v => v.isTruthy = true) conditions m f := by
  refine fails_iff_inTurn (fun m => ?_) (fun e rest m => ?_) conditions m
  · simp [allHold]
  · rw [allHold, fails_bind]
    refine or_congr .rfl (exists_congr fun v => exists_congr fun m₁ => and_congr_right fun _ => ?_)
    by_cases truthy : v.isTruthy = true <;> simp [truthy]

theorem fails_values {value : Expr → EvalM Value} {items : List Expr} :
    Fails (values value items) m f ↔ FailsInTurn value (fun _ => True) items m f := by
  refine fails_iff_inTurn (fun m => ?_) (fun e rest m => ?_) items m
  · simp [values]
  · simp only [values, fails_bind, fails_pure, and_false, exists_false, or_false, true_and]

/-- The entries of a map fail in turn, whatever has been written before. -/
theorem fails_entries {depth : Nat} {value : Expr → EvalM Value} {pairs : List (Expr × Expr)} :
    ∀ {m : Machine} {content : OrderedMap Key Entry},
      Fails (entries depth value content pairs) m f ↔
        FailsInTurn (entry depth value) (fun _ => True) pairs m f := by
  induction pairs with
  | nil =>
    intro m content
    simp [entries]
  | cons pair rest ih =>
    intro m content
    have one : entries depth value content (pair :: rest)
        = entry depth value pair >>= fun e => entries depth value (content.insert e.1 e.2) rest := by
      simp only [entries, entry, bind_assoc, pure_bind]
    rw [one, fails_bind, failsInTurn_cons]
    simp only [ih, true_and]

theorem fails_iterate {condition : EvalM Bool} {body : EvalM Signal} {rounds : Nat} :
    ∀ {m : Machine}, Fails (iterate condition body rounds) m f ↔
      ∃ left m₁, Rounds condition body rounds m (left + 1) m₁ ∧ (Fails condition m₁ f ∨
        ∃ m₂, condition m₁ = .ok true m₂ ∧ Fails body m₂ f) := by
  -- a round fails in its condition or in its body, or the next one is reached
  induction rounds with
  | zero =>
    intro m
    rw [iterate, fails_throw]
    constructor
    · exact fun h => Failure.noConfusion h
    · rintro ⟨left, m₁, reached, -⟩
      cases reached
  | succ rounds ih =>
    intro m
    rw [iterate, fails_bind]
    constructor
    · rintro (h | ⟨holds, m₁, held, h⟩)
      · exact ⟨rounds, m, .here, .inl h⟩
      · cases holds with
        | false => exact absurd h (fails_pure _).mp
        | true =>
          rw [if_pos rfl, fails_bind] at h
          rcases h with h | ⟨signal, m₂, ran, h⟩
          · exact ⟨rounds, m, .here, .inr ⟨m₁, held, h⟩⟩
          · cases signal with
            | next =>
              obtain ⟨left, m₃, reached, h⟩ := ih.mp h
              exact ⟨left, m₃, .again held ran reached, h⟩
            | leave => exact absurd h (fails_pure _).mp
            | yield v => exact absurd h (fails_pure _).mp
    · rintro ⟨left, m₁, reached, h⟩
      cases reached with
      | here =>
        rcases h with h | ⟨m₂, held, h⟩
        · exact .inl h
        · refine .inr ⟨true, m₂, held, ?_⟩
          rw [if_pos rfl, fails_bind]
          exact .inl h
      | again held ran further =>
        refine .inr ⟨true, _, held, ?_⟩
        rw [if_pos rfl, fails_bind]
        exact .inr ⟨.next, _, ran, ih.mpr ⟨left, m₁, further, h⟩⟩

/-! ## Faults that a step raises itself -/

/-- The faults of a step note no calls, and their causes and lexemes are as demanded. -/
def Blames (post : Cause → Option Lexeme → Prop) (step : EvalM α) : Prop :=
  ∀ m f, Fails step m f → f.stack = none ∧ post f.cause f.lexeme

namespace Blames

variable {post : Cause → Option Lexeme → Prop} {step : EvalM α}

theorem pure (a : α) : Blames post (pure a : EvalM α) :=
  fun _ _ h => ((fails_pure a).mp h).elim

theorem defect (d : Defect) : Blames post (throw (.defect d) : EvalM α) :=
  fun _ _ h => by
    rw [fails_throw] at h
    cases h

theorem failAt {lexeme : Lexeme} {cause : Cause} (h : post cause (some lexeme)) :
    Blames post (failAt lexeme cause : EvalM α) := by
  intro m f failed
  rw [fails_failAt] at failed
  subst failed
  exact ⟨rfl, h⟩

theorem failHere {cause : Cause} (h : post cause none) :
    Blames post (failHere cause : EvalM α) := by
  intro m f failed
  rw [fails_failHere] at failed
  subst failed
  exact ⟨rfl, h⟩

theorem bind {g : α → EvalM β} (hx : Blames post step) (hg : ∀ a, Blames post (g a)) :
    Blames post (step >>= g) := by
  intro m f failed
  rcases fails_bind.mp failed with h | ⟨a, m₁, -, h⟩
  · exact hx m f h
  · exact hg a m₁ f h

/-- A step that always ends well. -/
theorem total (h : ∀ m, ∃ a m', step m = .ok a m') : Blames post step := by
  rintro m f ⟨m', failed⟩
  obtain ⟨a, m₁, ran⟩ := h m
  rw [ran] at failed
  cases failed

theorem get : Blames post (get : EvalM Machine) :=
  total fun m => ⟨m, m, rfl⟩

theorem set (m : Machine) : Blames post (set m : EvalM PUnit) :=
  total fun _ => ⟨⟨⟩, m, rfl⟩

theorem modify (g : Machine → Machine) : Blames post (modify g : EvalM Unit) :=
  total fun m => ⟨⟨⟩, g m, rfl⟩

theorem modifyGet (g : Machine → α × Machine) : Blames post (modifyGet g : EvalM α) :=
  total fun m => ⟨(g m).1, (g m).2, rfl⟩

theorem onStore (g : Store → α × Store) : Blames post (onStore g) :=
  modifyGet _

theorem note (e : Event) : Blames post (note e) :=
  modify _

theorem trace (setup : Setup) (text : String) : Blames post (trace setup text) := by
  unfold EvalM.trace
  split
  · exact note _
  · exact pure _

theorem newList (items : Array Value) : Blames post (newList items) :=
  bind (onStore _) fun _ => pure _

theorem orTooDeep (answer : Option α) : Blames post (orTooDeep answer) := by
  cases answer with
  | none => exact defect _
  | some a => exact pure a

theorem shown (depth : Nat) (v : Value) : Blames post (shown depth v) :=
  bind get fun _ => orTooDeep _

theorem same (depth : Nat) (a b : Value) : Blames post (same depth a b) :=
  bind get fun _ => orTooDeep _

theorem keyOf (depth : Nat) (v : Value) : Blames post (keyOf depth v) :=
  bind get fun _ => orTooDeep _

theorem bindArguments (scope : ScopeId) (parameters : List Lexeme) :
    ∀ arguments, Blames post (EvalM.bind scope parameters arguments) := by
  induction parameters with
  | nil =>
    intro arguments
    cases arguments <;> exact pure _
  | cons p ps ih =>
    intro arguments
    cases arguments with
    | nil => exact pure _
    | cons v vs => exact bind (modify _) fun _ => ih vs

theorem importTarget (setup : Setup) (space : Option Lexeme) :
    Blames post (importTarget setup space) := by
  cases space with
  | none => exact bind get fun _ => pure _
  | some name => exact bind (onStore _) fun _ => bind (modify _) fun _ => pure _

theorem enterDirectory (directory : Option String) : Blames post (enterDirectory directory) := by
  cases directory with
  | none => exact pure _
  | some dir => exact modify _

theorem catchFault (step : EvalM α) : Blames post (catchFault step) := by
  rintro m f ⟨m', h⟩
  unfold EvalM.catchFault at h
  cases run : step m with
  | ok a m₁ =>
    rw [run] at h
    cases h
  | error e m₁ =>
    rw [run] at h
    cases e with
    | fault f' => cases h
    | defect d => cases h
    | unfinished => cases h

/-- A test catches every fault. -/
theorem asTest (name : String) (line : Nat) (step : EvalM α) : Blames post (asTest name line step) :=
  bind (catchFault step) fun _ => modify _

/-! ### Names -/

theorem lookup {name : Lexeme} (h : ∀ cause, cause.ofImport = false → post cause (some name)) :
    Blames post (lookup name) := by
  refine bind get fun m => ?_
  split
  · exact pure _
  · exact failAt (h _ rfl)

theorem lookupQualified {spaces : List Lexeme} {name : Lexeme}
    (h : ∀ l ∈ spaces ++ [name], ∀ cause, cause.ofImport = false → post cause (some l)) :
    Blames post (lookupQualified spaces name) := by
  refine bind get fun m => ?_
  split
  · exact pure _
  · rename_i missing cause found
    -- what is missing is one of the namespaces on the way, or the name itself
    have along : ∀ (rest : List Lexeme) (id : ScopeId), m.store.spaceOf id rest = .error missing →
        missing ∈ rest := by
      intro rest
      induction rest with
      | nil =>
        intro id lost
        cases lost
      | cons space rest ih =>
        intro id lost
        rw [Store.spaceOf] at lost
        split at lost
        · exact List.mem_cons_of_mem _ (ih _ lost)
        · cases lost
          exact List.mem_cons_self
    unfold Store.qualifiedValue at found
    split at found
    · rename_i lost
      cases found
      exact failAt (h _ (List.mem_append_left _ (along _ _ lost)) _ rfl)
    · split at found
      · cases found
      · cases found
        exact failAt (h _ (List.mem_append_right _ List.mem_cons_self) _ rfl)

theorem assign {name : Lexeme} {v : Value}
    (h : ∀ cause, cause.ofImport = false → post cause (some name)) : Blames post (assign name v) := by
  refine bind get fun m => ?_
  split
  · exact modify _
  · exact failAt (h _ rfl)

/-! ### Operators and subscripts -/

theorem unaryOp {op : UnaryOp} {place : Place} (v : Value)
    (h : ∀ cause, cause.ofImport = false → post cause (some ⟨op.symbol, place⟩)) :
    Blames post (op.apply place v) := by
  unfold UnaryOp.apply
  split
  · exact pure _
  · exact pure _
  · exact failAt (h _ rfl)

theorem addValues (depth : Nat) {place : Place} (a b : Value)
    (h : ∀ cause, cause.ofImport = false → post cause (some (BinaryOp.add.lexeme place))) :
    Blames post (addValues depth place a b) := by
  unfold ContractScript.addValues
  split
  · exact pure _
  · exact bind (shown depth _) fun _ => pure _
  · exact bind (shown depth _) fun _ => pure _
  · exact bind get fun _ => newList _
  · exact failAt (h _ rfl)

theorem onNumbers {op : BinaryOp} {place : Place} (x y : Float)
    (h : ∀ cause, cause.ofImport = false → post cause (some (op.lexeme place))) :
    Blames post (op.onNumbers place x y) := by
  cases op
  case divide =>
    show Blames _ (if Number.isZero y then _ else _)
    split
    · exact failAt (h _ rfl)
    · exact pure _
  case remainder =>
    show Blames _ (if Number.isZero y then _ else _)
    split
    · exact failAt (h _ rfl)
    · split
      · exact pure _
      · exact defect _
  all_goals exact pure _

theorem binaryOp {op : BinaryOp} (depth : Nat) {place : Place} (a b : Value)
    (h : ∀ cause, cause.ofImport = false → post cause (some (op.lexeme place))) :
    Blames post (op.apply depth place a b) := by
  unfold BinaryOp.apply
  split
  · exact addValues depth a b h
  · exact bind (same depth a b) fun _ => pure _
  · exact bind (same depth a b) fun _ => pure _
  · split
    · exact onNumbers _ _ h
    · exact failAt (h _ rfl)

section Subscripts

variable {place : Place}
  (h : ∀ cause, cause.ofImport = false → post cause (some (bracketLexeme place)))
include h

theorem subscriptOf (v : Value) : Blames post (subscriptOf place v) := by
  unfold ContractScript.subscriptOf
  split
  · split
    · exact pure _
    · exact failAt (h _ rfl)
  · exact failAt (h _ rfl)

theorem positionIn (size : Nat) (key : Value) : Blames post (positionIn place size key) := by
  refine bind (subscriptOf h key) fun i => ?_
  split
  · exact pure _
  · exact failAt (h _ rfl)

theorem indexValue (depth : Nat) (collection key : Value) :
    Blames post (indexValue depth place collection key) := by
  unfold ContractScript.indexValue
  split
  · exact bind get fun _ => bind (positionIn h _ key) fun _ => pure _
  · exact bind (positionIn h _ key) fun _ => pure _
  · refine bind (keyOf depth key) fun k => bind get fun m => ?_
    split
    · exact pure _
    · exact failAt (h _ rfl)
  · exact failAt (h _ rfl)

theorem sliceBounds (size : Nat) (first last : Value) :
    Blames post (sliceBounds place size first last) := by
  refine bind (subscriptOf h first) fun low => bind (subscriptOf h last) fun high => ?_
  split
  · exact pure _
  · exact failAt (h _ rfl)

theorem sliceValue (collection first last : Value) :
    Blames post (sliceValue place collection first last) := by
  unfold ContractScript.sliceValue
  split
  · exact bind get fun _ => bind (sliceBounds h _ first last) fun _ => newList _
  · exact bind (sliceBounds h _ first last) fun _ => pure _
  · exact failAt (h _ rfl)

end Subscripts

/-! ### Built-in functions

Their faults have no lexeme: the call will give them one. -/

section Natives

variable (h : ∀ cause, cause.ofImport = false → post cause none)
include h

theorem reject (depth : Nat) (wanted : Wanted) (v : Value) :
    Blames post (Native.reject depth wanted v : EvalM α) :=
  bind (shown depth v) fun _ => failHere (h _ rfl)

theorem expectMap (depth : Nat) (v : Value) : Blames post (Native.expectMap depth v) := by
  unfold Native.expectMap
  split
  · exact pure _
  · exact reject h depth _ _

theorem expectText (depth : Nat) (wanted : Wanted) (v : Value) :
    Blames post (Native.expectText depth wanted v) := by
  unfold Native.expectText
  split
  · exact pure _
  · exact reject h depth _ _

theorem fileProblem {cause : String → Cause} (own : ∀ reason, (cause reason).ofImport = false)
    (problem : FileTree.Problem) : Blames post (Native.fileProblem cause problem : EvalM α) := by
  cases problem with
  | refused reason => exact failHere (h _ (own _))
  | nullByte => exact defect _
  | undecodable bad => exact defect _

theorem readFile (setup : Setup) (path : String) : Blames post (Native.readFile setup path) := by
  refine bind get fun m => ?_
  split
  · exact pure _
  · exact fileProblem h (fun _ => rfl) _

theorem writeFile (setup : Setup) (path content : String) :
    Blames post (Native.writeFile setup path content) := by
  refine bind get fun m => ?_
  split
  · exact bind (modify _) fun _ => pure _
  · exact fileProblem h (fun _ => rfl) _

theorem fetch (setup : Setup) (url : String) : Blames post (Native.fetch setup url) := by
  refine bind get fun m => ?_
  dsimp only
  refine bind (set _) fun _ => ?_
  split
  · exact pure _
  · exact defect _
  · exact failHere (h _ rfl)
  · exact pure _

theorem native (setup : Setup) (depth : Nat) (g : Native) (arguments : List Value) :
    Blames post (g.call setup depth arguments) := by
  -- a function raises what is wrong with its arguments, and what files and network refuse
  unfold Native.call
  split
  · refine bind (shown depth _) fun _ => bind (note _) fun _ => bind get fun m => ?_
    split
    · exact pure _
    · refine bind (set _) fun _ => ?_
      split
      · exact pure _
      · exact defect _
  · refine bind get fun m => ?_
    dsimp only
    split
    · exact pure _
    · exact pure _
    · exact pure _
    · exact reject h depth _ _
  · exact modifyGet _
  · exact modifyGet _
  · exact bind (expectMap h depth _) fun _ => bind get fun _ => newList _
  · exact bind (expectMap h depth _) fun _ => bind get fun _ => newList _
  · exact bind (expectMap h depth _) fun _ => bind (keyOf depth _) fun _ => bind (modify _) fun _ =>
      pure _
  · split
    · exact bind (modify _) fun _ => pure _
    · exact reject h depth _ _
  · exact bind (expectText h depth _ _) fun _ => readFile h setup _
  · exact bind (expectText h depth _ _) fun _ => bind (expectText h depth _ _) fun _ =>
      writeFile h setup _ _
  · refine bind (expectText h depth _ _) fun url => ?_
    split
    · exact fetch h setup url
    · exact reject h depth _ _
  · exact pure _

end Natives

/-! ### Modules -/

theorem findModule (setup : Setup) {path : Lexeme} (text : String)
    (h : ∀ cause, post cause (some path)) : Blames post (findModule setup path text) := by
  refine bind get fun m => ?_
  split
  · exact failAt (h _)
  · exact defect _
  · exact defect _
  · exact failAt (h _)
  · split
    · exact failAt (h _)
    · exact pure _

theorem moduleDeclarations {path : Lexeme} (text : String) (source : ModuleSource)
    (h : ∀ cause, post cause (some path)) : Blames post (moduleDeclarations path text source) := by
  unfold EvalM.moduleDeclarations
  dsimp only
  split
  · exact pure _
  · exact failAt (h _)

end Blames

end EvalM

end ContractScript
