/-
When a step breaks.

Besides the faults of a program there are defects, which nothing catches. This file says for
everything that evaluation is built from when it ends with a defect, as `Failing` does for
faults. Running out of levels is the one defect that any question about a value can have, and
a call turns it into a fault; it is left aside throughout. A step is firm if it has no other
defect. Most operations are firm. Those that are not meet something outside the language that
refuses in a way of its own, and for them the exact conditions are given: the remainder of an
infinite number, an input that is interrupted, a file or a module that has no path or no text,
and a pause that is refused.
-/
import ContractScript.Proofs.Run.Bracketing

set_option autoImplicit false

namespace ContractScript

namespace EvalM

variable {α β : Type} {m : Machine} {d : Defect}

/-! ## Steps that break -/

/-- A step ends with a defect. -/
def Breaks (step : EvalM α) (m : Machine) (d : Defect) : Prop :=
  ∃ m', step m = .error (.defect d) m'

theorem not_breaks_of_ok {step : EvalM α} {a : α} {m' : Machine} (ran : step m = .ok a m') :
    ¬ Breaks step m d := by
  rintro ⟨m₁, broke⟩
  rw [ran] at broke
  cases broke

@[simp]
theorem breaks_throw (e : Failure) : Breaks (throw e : EvalM α) m d ↔ e = .defect d := by
  constructor
  · rintro ⟨m', broke⟩
    cases broke
    rfl
  · rintro rfl
    exact ⟨m, rfl⟩

@[simp]
theorem breaks_pure (a : α) : ¬ Breaks (pure a : EvalM α) m d :=
  not_breaks_of_ok rfl

/-- A sequence breaks where its first part does, or its second behind a first that ended well. -/
theorem breaks_bind {x : EvalM α} {g : α → EvalM β} :
    Breaks (x >>= g) m d ↔ Breaks x m d ∨ ∃ a m₁, x m = .ok a m₁ ∧ Breaks (g a) m₁ d := by
  cases run : x m with
  | ok a m₁ =>
    have here : ¬ Breaks x m d := not_breaks_of_ok run
    unfold Breaks at here ⊢
    rw [bind_ok run]
    constructor
    · exact fun broke => .inr ⟨a, m₁, rfl, broke⟩
    · rintro (broke | ⟨b, m₂, same, broke⟩)
      · exact absurd broke here
      · cases same
        exact broke
  | error e m₁ =>
    unfold Breaks
    rw [bind_error run, run]
    constructor
    · rintro ⟨m', broke⟩
      cases broke
      exact .inl ⟨m₁, rfl⟩
    · rintro (⟨m', broke⟩ | ⟨b, m₂, same, -⟩)
      · cases broke
        exact ⟨m₁, rfl⟩
      · cases same

theorem breaks_get {f : Machine → EvalM α} :
    Breaks ((get : EvalM Machine) >>= f) m d ↔ Breaks (f m) m d :=
  Iff.rfl

theorem breaks_set {f : PUnit → EvalM α} {m' : Machine} :
    Breaks ((set m' : EvalM PUnit) >>= f) m d ↔ Breaks (f ⟨⟩) m' d :=
  Iff.rfl

theorem breaks_modify {c : Machine → Machine} {f : PUnit → EvalM α} :
    Breaks ((modify c : EvalM PUnit) >>= f) m d ↔ Breaks (f ⟨⟩) (c m) d :=
  Iff.rfl

/-- Whatever is put back afterwards, a defect goes on as it is. -/
theorem breaks_restoring {repair : Machine → Machine} {step : EvalM α} :
    Breaks (restoring repair step) m d ↔ Breaks step m d := by
  unfold Breaks restoring
  cases step m with
  | ok a m' => simp
  | error e m' => simp

theorem breaks_inScope {step : EvalM α} {scope : ScopeId} :
    Breaks (inScope scope step) m d ↔ Breaks step { m with scope := scope } d :=
  breaks_restoring

theorem breaks_inImport {step : EvalM α} {name : String} :
    Breaks (inImport name step) m d ↔ Breaks step { m with importing := name :: m.importing } d :=
  breaks_restoring

/-- Only want of levels becomes something else when it leaves a call. -/
theorem breaks_inCall {step : EvalM α} {frame : Frame} {close : Lexeme} (levels : d ≠ .tooDeep) :
    Breaks (inCall frame close step) m d ↔ Breaks step { m with frames := frame :: m.frames } d := by
  unfold Breaks inCall
  dsimp only
  cases step { m with frames := frame :: m.frames } with
  | ok a m' => simp
  | error e m' =>
    cases e with
    | fault f => simp
    | defect d' =>
      cases d' with
      | tooDeep =>
        -- a call makes a fault of this one, so it is not among the defects that are looked at
        simpa using fun same => levels same.symm
      | _ => simp
    | unfinished => simp

/-- Only faults are caught. -/
theorem breaks_catchFault {step : EvalM α} : Breaks (catchFault step) m d ↔ Breaks step m d := by
  unfold Breaks catchFault
  cases step m with
  | ok a m' => simp
  | error e m' => cases e <;> simp

/-! ## Firm steps -/

/-- A step has no defects but for want of levels. -/
def Firm (step : EvalM α) : Prop :=
  ∀ m d, Breaks step m d → d = .tooDeep

namespace Firm

variable {step : EvalM α}

theorem never (h : Firm step) (levels : d ≠ .tooDeep) : ¬ Breaks step m d :=
  fun broke => levels (h m d broke)

/-- A step that always ends well. -/
theorem total (h : ∀ m, ∃ a m', step m = .ok a m') : Firm step := by
  intro m d broke
  obtain ⟨a, m', ran⟩ := h m
  exact absurd broke (not_breaks_of_ok ran)

theorem pure (a : α) : Firm (Pure.pure a : EvalM α) :=
  total fun m => ⟨a, m, rfl⟩

theorem fault (f : Fault) : Firm (throw (.fault f) : EvalM α) := by
  rintro m d ⟨m', broke⟩
  cases broke

theorem failAt (lexeme : Lexeme) (cause : Cause) : Firm (EvalM.failAt lexeme cause : EvalM α) :=
  fault _

theorem failHere (cause : Cause) : Firm (EvalM.failHere cause : EvalM α) :=
  fault _

theorem bind {f : α → EvalM β} (hx : Firm step) (hf : ∀ a, Firm (f a)) : Firm (step >>= f) := by
  intro m d broke
  rcases breaks_bind.mp broke with broke | ⟨a, m₁, -, broke⟩
  · exact hx m d broke
  · exact hf a m₁ d broke

/-- Nothing follows a fault. -/
theorem stopped (cause : Cause) (f : α → EvalM β) : Firm (EvalM.failHere cause >>= f) :=
  fault ⟨cause, none, none⟩

/-- A sequence breaks where its first part does if nothing behind it can. -/
theorem breaks_bind_iff {f : α → EvalM β} (firm : ∀ a, Firm (f a)) (levels : d ≠ .tooDeep) :
    Breaks (step >>= f) m d ↔ Breaks step m d := by
  rw [breaks_bind]
  refine or_iff_left ?_
  rintro ⟨a, m₁, -, broke⟩
  exact (firm a).never levels broke

theorem get : Firm (get : EvalM Machine) :=
  total fun m => ⟨m, m, rfl⟩

theorem modify (c : Machine → Machine) : Firm (modify c : EvalM Unit) :=
  total fun m => ⟨(), c m, rfl⟩

theorem onStore (c : Store → α × Store) : Firm (EvalM.onStore c) :=
  total fun m => ⟨(c m.store).1, _, rfl⟩

theorem note (e : Event) : Firm (EvalM.note e) :=
  modify _

theorem trace (setup : Setup) (text : String) : Firm (EvalM.trace setup text) := by
  unfold EvalM.trace
  split
  · exact note _
  · exact pure _

theorem newList (xs : Array Value) : Firm (EvalM.newList xs) :=
  bind (onStore _) fun _ => pure _

/-- A question that may nest too deeply. -/
theorem orTooDeep (answer : Option α) : Firm (EvalM.orTooDeep answer) := by
  cases answer with
  | some a => exact pure a
  | none =>
    rintro m d ⟨m', broke⟩
    cases broke
    rfl

theorem shown (depth : Nat) (v : Value) : Firm (EvalM.shown depth v) :=
  bind get fun _ => orTooDeep _

theorem same (depth : Nat) (a b : Value) : Firm (EvalM.same depth a b) :=
  bind get fun _ => orTooDeep _

theorem keyOf (depth : Nat) (v : Value) : Firm (EvalM.keyOf depth v) :=
  bind get fun _ => orTooDeep _

theorem lookup (name : Lexeme) : Firm (EvalM.lookup name) := by
  refine bind get fun m => ?_
  split
  · exact pure _
  · exact failAt _ _

theorem lookupQualified (spaces : List Lexeme) (name : Lexeme) :
    Firm (EvalM.lookupQualified spaces name) := by
  refine bind get fun m => ?_
  split
  · exact pure _
  · exact failAt _ _

theorem assign (name : Lexeme) (v : Value) : Firm (EvalM.assign name v) := by
  refine bind get fun m => ?_
  split
  · exact modify _
  · exact failAt _ _

theorem unaryOp (op : UnaryOp) (place : Place) (v : Value) : Firm (op.apply place v) := by
  unfold UnaryOp.apply
  split
  · exact pure _
  · exact pure _
  · exact failAt _ _

theorem addValues (depth : Nat) (place : Place) (a b : Value) :
    Firm (ContractScript.addValues depth place a b) := by
  unfold ContractScript.addValues
  split
  · exact pure _
  · exact bind (shown depth _) fun _ => pure _
  · exact bind (shown depth _) fun _ => pure _
  · exact bind get fun _ => newList _
  · exact failAt _ _

theorem subscriptOf (place : Place) (v : Value) : Firm (ContractScript.subscriptOf place v) := by
  unfold ContractScript.subscriptOf
  split
  · split
    · exact pure _
    · exact failAt _ _
  · exact failAt _ _

theorem positionIn (place : Place) (size : Nat) (key : Value) :
    Firm (ContractScript.positionIn place size key) := by
  refine bind (subscriptOf place key) fun i => ?_
  split
  · exact pure _
  · exact failAt _ _

theorem indexValue (depth : Nat) (place : Place) (collection key : Value) :
    Firm (ContractScript.indexValue depth place collection key) := by
  unfold ContractScript.indexValue
  split
  · exact bind get fun _ => bind (positionIn place _ key) fun _ => pure _
  · exact bind (positionIn place _ key) fun _ => pure _
  · refine bind (keyOf depth key) fun k => bind get fun m => ?_
    split
    · exact pure _
    · exact failAt _ _
  · exact failAt _ _

theorem sliceBounds (place : Place) (size : Nat) (first last : Value) :
    Firm (ContractScript.sliceBounds place size first last) := by
  refine bind (subscriptOf place first) fun low => bind (subscriptOf place last) fun high => ?_
  split
  · exact pure _
  · exact failAt _ _

theorem sliceValue (place : Place) (collection first last : Value) :
    Firm (ContractScript.sliceValue place collection first last) := by
  unfold ContractScript.sliceValue
  split
  · exact bind get fun _ => bind (sliceBounds place _ first last) fun _ => newList _
  · exact bind (sliceBounds place _ first last) fun _ => pure _
  · exact failAt _ _

theorem reject (depth : Nat) (wanted : Wanted) (v : Value) :
    Firm (Native.reject depth wanted v : EvalM α) :=
  bind (shown depth v) fun _ => failHere _

theorem expectMap (depth : Nat) (v : Value) : Firm (Native.expectMap depth v) := by
  unfold Native.expectMap
  split
  · exact pure _
  · exact reject depth _ _

theorem length (depth : Nat) (v : Value) : Firm (Native.length depth v) := by
  refine bind get fun m => ?_
  dsimp only
  split
  · exact pure _
  · exact pure _
  · exact pure _
  · exact reject depth _ _

theorem bindArguments (scope : ScopeId) (parameters : List Lexeme) : ∀ arguments : List Value,
    Firm (EvalM.bind scope parameters arguments) := by
  induction parameters with
  | nil =>
    intro arguments
    cases arguments <;> exact pure ()
  | cons p ps ih =>
    intro arguments
    cases arguments with
    | nil => exact pure ()
    | cons v vs => exact bind (modify _) fun _ => ih vs

theorem moduleDeclarations (path : Lexeme) (pathText : String) (source : ModuleSource) :
    Firm (EvalM.moduleDeclarations path pathText source) := by
  unfold EvalM.moduleDeclarations
  dsimp only
  split
  · exact pure _
  · exact failAt _ _

theorem importTarget (setup : Setup) (space : Option Lexeme) :
    Firm (EvalM.importTarget setup space) := by
  cases space with
  | none => exact bind get fun _ => pure _
  | some name => exact bind (onStore _) fun _ => bind (modify _) fun _ => pure _

theorem enterDirectory (directory : Option String) : Firm (EvalM.enterDirectory directory) := by
  cases directory with
  | none => exact pure _
  | some dir => exact modify _

/-- A step that fails first if something is wrong. -/
theorem orFail {wrong : Bool} {cause : Cause} (h : Firm step) :
    Firm (if wrong then EvalM.failHere cause >>= fun _ : Unit => step else step) := by
  split
  · exact stopped cause _
  · exact h

end Firm

end EvalM

/-! ## Operations that break -/

open EvalM

/-- A number has no remainder if it is infinite, whatever it is divided by. -/
theorem Number.remainder?_eq_none {x y : Float} :
    Number.remainder? x y = none ↔ Number.isInfinite x = true ∧ Number.isNaN y = false := by
  have apart : Number.isInfinite x = true → Number.isNaN x = false := by
    unfold Number.isInfinite Number.isNaN
    simp only [Bool.and_eq_true, beq_iff_eq, Bool.and_eq_false_iff, bne_eq_false_iff_eq]
    exact fun fields => .inr fields.2
  unfold Number.remainder?
  cases nan : Number.isNaN x with
  | true =>
    simp only [if_true, reduceCtorEq, false_iff, not_and]
    intro infinite
    rw [apart infinite] at nan
    cases nan
  | false => cases Number.isNaN y <;> cases Number.isInfinite x <;> cases Number.isInfinite y <;> simp

/-- The defect that a problem with a file is, unless it is a refusal by the system. -/
def FileTree.Problem.defect? : FileTree.Problem → Option Defect
  | .refused _ => none
  | .nullByte => some .nullByte
  | .undecodable m => some (.undecodable m)

/-- The defect that keeps a module from being loaded, unless it is a refusal by the system. -/
def Module.LoadError.defect? : Module.LoadError → Option Defect
  | .refused _ => none
  | .nullByte => some .nullByte
  | .undecodable m => some (.undecodable m)

namespace EvalM

variable {m : Machine} {d : Defect} {setup : Setup} {depth : Nat}

theorem Firm.onNumbers {op : BinaryOp} (other : op ≠ .remainder) (place : Place) (x y : Float) :
    Firm (op.onNumbers place x y) := by
  cases op
  case remainder => exact absurd rfl other
  case divide =>
    show Firm (if Number.isZero y then _ else _)
    split
    · exact .failAt _ _
    · exact .pure _
  all_goals exact .pure _

theorem Firm.binaryOp {op : BinaryOp} (other : op ≠ .remainder) (depth : Nat) (place : Place)
    (a b : Value) : Firm (op.apply depth place a b) := by
  unfold BinaryOp.apply
  split
  · exact .addValues depth place a b
  · exact .bind (.same depth a b) fun _ => .pure _
  · exact .bind (.same depth a b) fun _ => .pure _
  · split
    · exact .onNumbers other place _ _
    · exact .failAt _ _

theorem breaks_onNumbers {place : Place} {x y : Float} :
    Breaks (BinaryOp.remainder.onNumbers place x y) m d ↔ d = .mathDomain ∧
      Number.isInfinite x = true ∧ Number.isZero y = false ∧ Number.isNaN y = false := by
  simp only [BinaryOp.onNumbers]
  cases Number.isZero y with
  | true => simp [failAt, Failure.at]
  | false =>
    have none_iff := @Number.remainder?_eq_none x y
    cases rest : Number.remainder? x y with
    | some r =>
      have proper : ¬ (Number.isInfinite x = true ∧ Number.isNaN y = false) := by
        rw [← none_iff, rest]
        exact Option.some_ne_none r
      simpa using fun _ infinite number => proper ⟨infinite, number⟩
    | none =>
      obtain ⟨infinite, number⟩ := none_iff.mp rest
      simp [infinite, number, eq_comm]

/-- A remainder breaks for an infinite number, unless the divisor is zero or no number. -/
theorem breaks_remainder {place : Place} {a b : Value} :
    Breaks (BinaryOp.remainder.apply depth place a b) m d ↔
      d = .mathDomain ∧ ∃ x y, a = .num x ∧ b = .num y ∧ Number.isInfinite x = true ∧
        Number.isZero y = false ∧ Number.isNaN y = false := by
  simp only [BinaryOp.apply]
  split
  · rename_i x y
    rw [breaks_onNumbers]
    constructor
    · exact fun ⟨same, infinite⟩ => ⟨same, x, y, rfl, rfl, infinite⟩
    · rintro ⟨same, x', y', ⟨⟩, ⟨⟩, infinite⟩
      exact ⟨same, infinite⟩
  · rename_i other
    refine iff_of_false (by simp [failAt, Failure.at]) ?_
    rintro ⟨-, x, y, rfl, rfl, -⟩
    exact other x y rfl rfl

theorem Firm.rejected {α β : Type} {wanted : Wanted} {v : Value} {f : α → EvalM β} :
    Firm (Native.reject depth wanted v >>= f) := by
  rw [Native.reject, bind_assoc]
  exact .bind (.shown depth v) fun text => .stopped _ f

theorem breaks_expectText {α : Type} {wanted : Wanted} {v : Value} {f : String → EvalM α}
    (levels : d ≠ .tooDeep) : Breaks (Native.expectText depth wanted v >>= f) m d ↔
      ∃ text, v = .text text ∧ Breaks (f text) m d := by
  cases v with
  | text t =>
    rw [Native.expectText, pure_bind]
    simp
  | _ => exact iff_of_false (Firm.rejected.never levels) (by simp)

theorem breaks_fileProblem {α : Type} {cause : String → Cause} {problem : FileTree.Problem} :
    Breaks (Native.fileProblem cause problem : EvalM α) m d ↔ problem.defect? = some d := by
  cases problem <;> simp [Native.fileProblem, FileTree.Problem.defect?, failHere, Failure.unlocated]

theorem breaks_readFile {path : String} : Breaks (Native.readFile setup path) m d ↔
    ∃ problem, m.host.read setup.settings.directory path = .error problem ∧
      problem.defect? = some d := by
  rw [Native.readFile, breaks_get]
  cases m.host.read setup.settings.directory path with
  | ok text => simp
  | error problem => simp [breaks_fileProblem]

theorem breaks_writeFile {path content : String} (levels : d ≠ .tooDeep) :
    Breaks (Native.writeFile setup path content) m d ↔
      ∃ problem, m.host.write setup.settings.directory path content = .error problem ∧
        problem.defect? = some d := by
  rw [Native.writeFile, breaks_get]
  cases m.host.write setup.settings.directory path content with
  | ok host =>
    have writes : Firm (do
        modify fun m => { m with host := host }
        return Value.nil) := .bind (.modify _) fun _ => .pure _
    exact iff_of_false (writes.never levels) (by simp)
  | error problem => simp [breaks_fileProblem]

theorem breaks_fetch {url : String} : Breaks (Native.fetch setup url) m d ↔
    ∃ e, d = .pause e ∧ (m.host.network.send ⟨"GET", url, []⟩
      ⟨setup.settings.httpRetries, setup.settings.httpBackoff⟩).1 = some (.error (.pause e)) := by
  rw [Native.fetch, breaks_get]
  dsimp only
  generalize m.host.network.send ⟨"GET", url, []⟩
    ⟨setup.settings.httpRetries, setup.settings.httpBackoff⟩ = exchange
  obtain ⟨result, network⟩ := exchange
  rw [breaks_set]
  cases result with
  | none => simp
  | some answer =>
    cases answer with
    | ok body => simp
    | error failure => cases failure <;> simp [failHere, Failure.unlocated, eq_comm]

/-- An input breaks when it is interrupted, after the prompt. -/
theorem breaks_readLine {prompt : Value} (levels : d ≠ .tooDeep) :
    Breaks (Native.readLine depth prompt) m d ↔ d = .interrupted ∧
      (∃ text, m.store.show? (depth / 3 + 1) false prompt = some text) ∧
      ∃ rest, m.host.typed = .interrupt :: rest := by
  rw [Native.readLine, shown, bind_assoc, breaks_get]
  cases m.store.show? (depth / 3 + 1) false prompt with
  | none =>
    refine iff_of_false ?_ (by simp)
    rw [orTooDeep, breaks_bind, breaks_throw]
    rintro (same | ⟨_, _, ran, -⟩)
    · cases same
      exact levels rfl
    · cases ran
  | some text =>
    simp only [orTooDeep, pure_bind, note, breaks_modify, breaks_get]
    cases m.host.typed with
    | nil => simp
    | cons first rest =>
      simp only [breaks_set]
      cases first <;> simp [eq_comm]

theorem breaks_findModule {lexeme : Lexeme} {path : String} :
    Breaks (findModule setup lexeme path) m d ↔
      ∃ e, Module.load setup.loaders m.host.site m.directory path = .error e ∧
        e.defect? = some d := by
  rw [findModule, breaks_get]
  cases Module.load setup.loaders m.host.site m.directory path with
  | error e => cases e <;> simp [Module.LoadError.defect?, failAt, Failure.at]
  | ok found =>
    cases found with
    | none => simp [failAt, Failure.at]
    | some source =>
      dsimp only
      split <;> simp [failAt, Failure.at]

end EvalM

end ContractScript
