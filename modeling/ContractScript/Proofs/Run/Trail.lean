/-
Which evaluation asks for which, and in which state.

A run is a tree of evaluations, each of which asks for others one level down. `Asks`
says when one asks for another: everything that comes before the question has ended
well, and the state in which that ended is the state in which the other one starts.
A trail is a chain of such questions, from an evaluation down to one that is under way
inside it. So the state at the end of a trail is a state that the run really passes
through, and the links of the trail are what is in progress there: the calls, the
imports, the tests and the statements around the present one.

Two things are proved about trails here. The calls and the imports that a state notes as
being in progress are the ones on the trail, and a discipline that admits an evaluation
admits everything it leads to. The last part says where the trails of a session begin.
-/
import ContractScript.Proofs.Run.Discipline

set_option autoImplicit false

namespace ContractScript

open EvalM

/-! ## Evaluations -/

/-- What one level of evaluation can be asked to do. -/
inductive Task where
  | evaluate (e : Expr)
  | call (place : Place) (f : Value) (arguments : List Value)
  | invoke (f : Value) (arguments : List Value)
  | execute (s : Stmt)
  | load (path : String) (place : Place) (space : Option Lexeme)

/-- A task, the levels it may use, and the state in which it starts. -/
structure Config where
  depth : Nat
  task : Task
  machine : Machine

/-- An import that was started: where modules were looked for, the directory it was seen from,
and the path that was written. -/
structure Import where
  site : Module.Site
  base : Option String
  path : String

/-- The module that an import found. -/
def Import.source? (setup : Setup) (i : Import) : Option ModuleSource :=
  match Module.load setup.loaders i.site i.base i.path with
  | .ok found => found
  | .error _ => none

/-- What an evaluation asks for another one for. -/
inductive Link where
  /-- A value that it needs, or a step of its own work. -/
  | part
  /-- A statement inside a statement. -/
  | inner
  /-- What a call does once its frame is in place. -/
  | call (frame : Frame)
  /-- A statement of the body of a function. -/
  | body
  /-- The body of a test. -/
  | test
  /-- A declaration of a module that is being imported. -/
  | load (i : Import)

/-- The call that a link begins. -/
def Link.frame? : Link → Option Frame
  | .call frame => some frame
  | _ => none

/-- The import that a link begins. -/
def Link.import? : Link → Option Import
  | .load i => some i
  | _ => none

/-! ## Prefixes of what is done in turn -/

/-- Items are run in turn as long as the results are such that it goes on, and one of them is
reached in some state. -/
inductive InTurn {ι α : Type} (run : ι → EvalM α) (goOn : α → Prop) :
    List ι → Machine → ι → Machine → Prop
  | first {i : ι} {rest : List ι} {m : Machine} : InTurn run goOn (i :: rest) m i m
  | later {i j : ι} {rest : List ι} {a : α} {m m₁ m' : Machine} (ran : run i m = .ok a m₁)
      (goes : goOn a) (further : InTurn run goOn rest m₁ j m') :
      InTurn run goOn (i :: rest) m j m'

/-- What is reached is one of the items. -/
theorem InTurn.mem {ι α : Type} {run : ι → EvalM α} {goOn : α → Prop} {items : List ι} {i : ι}
    {m m' : Machine} (reached : InTurn run goOn items m i m') : i ∈ items := by
  induction reached with
  | first => exact List.mem_cons_self
  | later _ _ _ ih => exact List.mem_cons_of_mem _ ih

/-- Full rounds of a loop lead from some number of rounds that are left, in some state, to
another. -/
inductive Rounds (condition : EvalM Bool) (body : EvalM Signal) :
    Nat → Machine → Nat → Machine → Prop
  | here {rounds : Nat} {m : Machine} : Rounds condition body rounds m rounds m
  | again {rounds left : Nat} {m m₁ m₂ m' : Machine} (holds : condition m = .ok true m₁)
      (ran : body m₁ = .ok .next m₂) (further : Rounds condition body rounds m₂ left m') :
      Rounds condition body (rounds + 1) m left m'

/-- Whether an expression holds. -/
def EvalM.truthOf (step : EvalM Value) : EvalM Bool := do
  return (← step).isTruthy

/-- Evaluates an entry of a map and its key. -/
def EvalM.entry (depth : Nat) (value : Expr → EvalM Value) (pair : Expr × Expr) :
    EvalM (Key × Entry) := do
  let shownKey ← value pair.1
  let item ← value pair.2
  let key ← keyOf depth shownKey
  return (key, ⟨shownKey, item⟩)

/-- The parts of an expression that are always evaluated, one after another, before anything else
is done. The entries of a map are not among them: between two of them a key is computed. -/
def Expr.operands : Expr → List Expr
  | .group inner => [inner]
  | .unary _ _ operand => [operand]
  | .binary _ _ left right => [left, right]
  | .logical _ _ left _ => [left]
  | .choice condition _ _ => [condition]
  | .assign _ value => [value]
  | .call callee _ arguments => callee :: arguments
  | .list items => items
  | .index collection _ key => [collection, key]
  | .slice collection _ first last => [collection, first, last]
  | .literal _ | .variable _ | .qualified _ _ | .map _ => []

/-- Whether the right operand is evaluated after the left one. -/
def LogicalOp.needsRight (op : LogicalOp) (left : Value) : Bool :=
  match op with
  | .and => left.isTruthy
  | .or => !left.isTruthy

/-- The expression that a statement starts with. -/
def Stmt.value? : Stmt → Option Expr
  | .expression value => some value
  | .print value => some value
  | .var _ value => value
  | .branch condition _ _ => some condition
  | .yield _ value => value
  | _ => none

/-! ## Asking -/

/-- An evaluation asks for another one. -/
inductive Asks (setup : Setup) : Config → Link → Config → Prop
  -- expressions
  | operand {depth : Nat} {e part : Expr} {m m' : Machine}
      (reached : InTurn (evaluate setup depth) (fun _ => True) e.operands m part m') :
      Asks setup ⟨depth + 1, .evaluate e, m⟩ .part ⟨depth, .evaluate part, m'⟩
  | mapKey {depth : Nat} {pairs : List (Expr × Expr)} {pair : Expr × Expr} {m m' : Machine}
      (reached : InTurn (entry depth (evaluate setup depth)) (fun _ => True) pairs m pair m') :
      Asks setup ⟨depth + 1, .evaluate (.map pairs), m⟩ .part ⟨depth, .evaluate pair.1, m'⟩
  | mapValue {depth : Nat} {pairs : List (Expr × Expr)} {pair : Expr × Expr} {key : Value}
      {m m₁ m' : Machine}
      (reached : InTurn (entry depth (evaluate setup depth)) (fun _ => True) pairs m pair m₁)
      (ran : evaluate setup depth pair.1 m₁ = .ok key m') :
      Asks setup ⟨depth + 1, .evaluate (.map pairs), m⟩ .part ⟨depth, .evaluate pair.2, m'⟩
  | right {depth : Nat} {op : LogicalOp} {place : Place} {left right : Expr} {a : Value}
      {m m' : Machine} (ran : evaluate setup depth left m = .ok a m')
      (needed : op.needsRight a = true) :
      Asks setup ⟨depth + 1, .evaluate (.logical op place left right), m⟩ .part
        ⟨depth, .evaluate right, m'⟩
  | chosen {depth : Nat} {condition whenTrue whenFalse : Expr} {a : Value} {m m' : Machine}
      (ran : evaluate setup depth condition m = .ok a m') :
      Asks setup ⟨depth + 1, .evaluate (.choice condition whenTrue whenFalse), m⟩ .part
        ⟨depth, .evaluate (if a.isTruthy then whenTrue else whenFalse), m'⟩
  -- calls
  | call {depth : Nat} {callee : Expr} {close : Place} {arguments : List Expr} {f : Value}
      {vs : List Value} {m m₁ m' : Machine} (ran : evaluate setup depth callee m = .ok f m₁)
      (passed : values (evaluate setup depth) arguments m₁ = .ok vs m') :
      Asks setup ⟨depth + 1, .evaluate (.call callee close arguments), m⟩ .part
        ⟨depth, .call close f vs, m'⟩
  | dispatch {depth : Nat} {place : Place} {f : Value} {arguments : List Value} {name : String}
      {m : Machine} (fits : m.store.callable? f = some (name, arguments.length)) :
      Asks setup ⟨depth + 1, .call place f arguments, m⟩ (.call ⟨name, place⟩)
        ⟨depth, .invoke f arguments, { m with frames := ⟨name, place⟩ :: m.frames }⟩
  | before {depth : Nat} {id : FunctionId} {arguments : List Value} {c : Closure} {e : Expr}
      {scope : ScopeId} {m m₁ m₂ m' : Machine} (found : m.store.closure? id = some c)
      (made : newScope (some c.scope) m = .ok scope m₁)
      (bound : bind scope c.signature.parameters arguments m₁ = .ok () m₂)
      (reached : InTurn (evaluate setup depth) (fun v => v.isTruthy = true)
        c.signature.before.conditions { m₂ with scope := scope } e m') :
      Asks setup ⟨depth + 1, .invoke (.function id) arguments, m⟩ .part ⟨depth, .evaluate e, m'⟩
  | body {depth : Nat} {id : FunctionId} {arguments : List Value} {c : Closure} {s : Stmt}
      {scope : ScopeId} {m m₁ m₂ m₃ m' : Machine} (found : m.store.closure? id = some c)
      (made : newScope (some c.scope) m = .ok scope m₁)
      (bound : bind scope c.signature.parameters arguments m₁ = .ok () m₂)
      (admitted : inScope scope (allHold (evaluate setup depth) c.signature.before.conditions) m₂
        = .ok true m₃)
      (reached : InTurn (execute setup depth) (fun signal => signal = .next) c.body
        { m₃ with scope := scope } s m') :
      Asks setup ⟨depth + 1, .invoke (.function id) arguments, m⟩ .body ⟨depth, .execute s, m'⟩
  | after {depth : Nat} {id : FunctionId} {arguments : List Value} {c : Closure} {e : Expr}
      {signal : Signal} {scope : ScopeId} {m m₁ m₂ m₃ m₄ m₅ m' : Machine}
      (found : m.store.closure? id = some c)
      (made : newScope (some c.scope) m = .ok scope m₁)
      (bound : bind scope c.signature.parameters arguments m₁ = .ok () m₂)
      (admitted : inScope scope (allHold (evaluate setup depth) c.signature.before.conditions) m₂
        = .ok true m₃)
      (ran : inScope scope (sequence (execute setup depth) c.body) m₃ = .ok signal m₄)
      (noted : define scope "result" signal.result m₄ = .ok () m₅)
      (reached : InTurn (evaluate setup depth) (fun v => v.isTruthy = true)
        c.signature.after.conditions { m₅ with scope := scope } e m') :
      Asks setup ⟨depth + 1, .invoke (.function id) arguments, m⟩ .part ⟨depth, .evaluate e, m'⟩
  -- statements
  | value {depth : Nat} {s : Stmt} {e : Expr} {m : Machine} (starts : s.value? = some e) :
      Asks setup ⟨depth + 1, .execute s, m⟩ .part ⟨depth, .evaluate e, m⟩
  | clause {depth : Nat} {kind : ContractKind} {place : Place} {clauses : Clauses} {e : Expr}
      {m m' : Machine} (reached : InTurn (evaluate setup depth) (fun v => v.isTruthy = true)
        clauses.conditions m e m') :
      Asks setup ⟨depth + 1, .execute (.contract kind place clauses), m⟩ .part
        ⟨depth, .evaluate e, m'⟩
  | block {depth : Nat} {body : List Stmt} {s : Stmt} {scope : ScopeId} {m m₁ m' : Machine}
      (made : newScope (some m.scope) m = .ok scope m₁)
      (reached : InTurn (execute setup depth) (fun signal => signal = .next) body
        { m₁ with scope := scope } s m') :
      Asks setup ⟨depth + 1, .execute (.block body), m⟩ .inner ⟨depth, .execute s, m'⟩
  | branch {depth : Nat} {condition : Expr} {whenTrue s : Stmt} {whenFalse : Option Stmt}
      {a : Value} {m m' : Machine} (ran : evaluate setup depth condition m = .ok a m')
      (chosen : (if a.isTruthy then some whenTrue else whenFalse) = some s) :
      Asks setup ⟨depth + 1, .execute (.branch condition whenTrue whenFalse), m⟩ .inner
        ⟨depth, .execute s, m'⟩
  | condition {depth left : Nat} {condition : Expr} {body : Stmt} {m m' : Machine}
      (rounds : Rounds (truthOf (evaluate setup depth condition)) (execute setup depth body)
        setup.limits.rounds m (left + 1) m') :
      Asks setup ⟨depth + 1, .execute (.loop condition body), m⟩ .part
        ⟨depth, .evaluate condition, m'⟩
  | round {depth left : Nat} {condition : Expr} {body : Stmt} {m m₁ m' : Machine}
      (rounds : Rounds (truthOf (evaluate setup depth condition)) (execute setup depth body)
        setup.limits.rounds m (left + 1) m₁)
      (holds : truthOf (evaluate setup depth condition) m₁ = .ok true m') :
      Asks setup ⟨depth + 1, .execute (.loop condition body), m⟩ .inner
        ⟨depth, .execute body, m'⟩
  | test {depth : Nat} {name : String} {place : Place} {body : Stmt} {scope : ScopeId}
      {m m₁ m₂ : Machine} (traced : trace setup ("test: " ++ name) m = .ok () m₁)
      (made : newScope (some m₁.scope) m₁ = .ok scope m₂) :
      Asks setup ⟨depth + 1, .execute (.test name place body), m⟩ .test
        ⟨depth, .execute body, { m₂ with scope := scope }⟩
  -- imports
  | load {depth : Nat} {path : String} {place : Place} {space : Option Lexeme} {m : Machine} :
      Asks setup ⟨depth + 1, .execute (.load path place space), m⟩ .part
        ⟨depth, .load path place space, m⟩
  | declaration {depth : Nat} {path : String} {place : Place} {space : Option Lexeme}
      {source : ModuleSource} {program : Program} {target : ScopeId} {s : Stmt}
      {m m₁ m₂ m₃ m₄ m₅ m' : Machine}
      (found : findModule setup (pathLexeme path place) path m = .ok source m₁)
      (traced : trace setup ("import: " ++ path ++ " -> " ++ source.name) m₁ = .ok () m₂)
      (read : moduleDeclarations (pathLexeme path place) path source
        { m₂ with importing := source.name :: m₂.importing } = .ok program m₃)
      (made : importTarget setup space m₃ = .ok target m₄)
      (entered : enterDirectory source.directory m₄ = .ok () m₅)
      (reached : InTurn (execute setup depth) (fun signal => signal = .next) program
        { m₅ with scope := target } s m') :
      Asks setup ⟨depth + 1, .load path place space, m⟩
        (.load ⟨m.host.site, m.directory, path⟩) ⟨depth, .execute s, m'⟩

/-- A chain of questions; the links are in order, the outermost first. -/
inductive Trail (setup : Setup) : Config → List Link → Config → Prop
  | here {c : Config} : Trail setup c [] c
  | step {c c₁ c' : Config} {link : Link} {links : List Link} (asks : Asks setup c link c₁)
      (further : Trail setup c₁ links c') : Trail setup c (link :: links) c'

theorem Trail.append {setup : Setup} {c c₁ c' : Config} {links more : List Link}
    (first : Trail setup c links c₁) (second : Trail setup c₁ more c') :
    Trail setup c (links ++ more) c' := by
  induction first with
  | here => exact second
  | step asks _ ih => exact .step asks (ih second)

theorem Trail.snoc {setup : Setup} {c c₁ c' : Config} {links : List Link} {link : Link}
    (trail : Trail setup c links c₁) (asks : Asks setup c₁ link c') :
    Trail setup c (links ++ [link]) c' :=
  trail.append (.step asks .here)

/-- What holds where a trail starts, and at the next evaluation whenever it holds at one on the
way, holds where the trail ends. -/
theorem Trail.along {setup : Setup} {start c : Config} {links : List Link}
    {P : List Link → Config → Prop} (here : P [] start)
    (step : ∀ links c link c', Trail setup start links c → P links c → Asks setup c link c' →
      P (links ++ [link]) c')
    (trail : Trail setup start links c) : P links c := by
  -- the induction follows the trail from its start, so what is behind has to be carried along
  have further : ∀ {c₁ c' : Config} {more : List Link}, Trail setup c₁ more c' →
      ∀ behind, Trail setup start behind c₁ → P behind c₁ → P (behind ++ more) c' := by
    intro c₁ c' more ahead
    induction ahead with
    | here =>
      intro behind _ holds
      rw [List.append_nil]
      exact holds
    | @step c₁ c₂ c' link more asks _ ih =>
      intro behind reached holds
      have next := ih (behind ++ [link]) (reached.snoc asks) (step _ _ _ _ reached holds asks)
      rw [List.append_assoc] at next
      exact next
  exact further trail [] .here here

/-! ## What is in progress -/

/-- The calls and the imports in progress, innermost first. -/
def Machine.progress (m : Machine) : List Frame × List String :=
  (m.frames, m.importing)

/-- What is in progress, and the directory that imports are seen from. -/
def Machine.context (m : Machine) : List Frame × List String × Option String :=
  (m.frames, m.importing, m.directory)

namespace EvalM

/-- What is in progress and the directory are part of the surroundings. -/
theorem Keeps.context {α : Type} {step : EvalM α} (h : Keeps Machine.surroundings step) :
    Keeps Machine.context step :=
  h.coarsen fun s => (s.frames, s.importing, s.directory)

theorem enterDirectory_context {directory : Option String} {m m' : Machine}
    (entered : enterDirectory directory m = .ok () m') :
    m'.context = (m.frames, m.importing, directory.or m.directory) := by
  cases directory <;> cases entered <;> rfl

theorem Keeps.truthOf {γ : Type} {view : Machine → γ} {step : EvalM Value} (h : Keeps view step) :
    Keeps view (truthOf step) :=
  .bind h fun _ => .pure _

theorem Keeps.entry {value : Expr → EvalM Value} (depth : Nat)
    (h : ∀ e, Keeps Machine.surroundings (value e)) (pair : Expr × Expr) :
    Keeps Machine.surroundings (entry depth value pair) :=
  .bind (h pair.1) fun _ => .bind (h pair.2) fun _ => .bind (.keyOf depth _) fun _ => .pure _

end EvalM

theorem InTurn.keeps {ι α γ : Type} {view : Machine → γ} {run : ι → EvalM α} {goOn : α → Prop}
    {items : List ι} {i : ι} {m m' : Machine} (h : ∀ i, Keeps view (run i))
    (reached : InTurn run goOn items m i m') : view m' = view m := by
  induction reached with
  | first => rfl
  | later ran _ _ ih => exact ih.trans ((h _).of_ok ran)

theorem Rounds.keeps {γ : Type} {view : Machine → γ} {condition : EvalM Bool}
    {body : EvalM Signal} {rounds left : Nat} {m m' : Machine} (hcondition : Keeps view condition)
    (hbody : Keeps view body) (reached : Rounds condition body rounds m left m') :
    view m' = view m := by
  induction reached with
  | here => rfl
  | again holds ran _ ih => exact ih.trans ((hbody.of_ok ran).trans (hcondition.of_ok holds))

/-- The name by which the module of an import is noted as being imported. -/
def Link.module? (setup : Setup) (link : Link) : Option String :=
  (link.import?.bind (Import.source? setup)).map ModuleSource.name

/-- The directory of the module of an import, if it has one. -/
def Link.directory? (setup : Setup) (link : Link) : Option String :=
  (link.import?.bind (Import.source? setup)).bind ModuleSource.directory

/-- A question adds to what is in progress exactly what its link begins, and is put from the
directory of the module whose import that is. -/
theorem Asks.context {setup : Setup} {c c' : Config} {link : Link} (asks : Asks setup c link c') :
    c'.machine.context = (link.frame?.toList ++ c.machine.frames,
      (link.module? setup).toList ++ c.machine.importing,
      (link.directory? setup).or c.machine.directory) := by
  have evaluated (depth e) := ((evaluationKeeps setup depth).evaluate e).context
  have executed (depth s) := ((evaluationKeeps setup depth).execute s).context
  have entries (depth pair) := (Keeps.entry depth (evaluationKeeps setup depth).evaluate pair).context
  have scopes (outer) := (Keeps.onStore fun s => s.newScope outer).context
  -- a change of scope is not a change of what is in progress, so only the steps before count
  cases asks with
  | operand reached => exact reached.keeps (evaluated _)
  | mapKey reached => exact reached.keeps (entries _)
  | mapValue reached ran => exact ((evaluated _ _).of_ok ran).trans (reached.keeps (entries _))
  | right ran _ => exact (evaluated _ _).of_ok ran
  | chosen ran => exact (evaluated _ _).of_ok ran
  | call ran passed =>
    have arguments := (Keeps.values (evaluationKeeps setup _).evaluate _).context.of_ok passed
    exact arguments.trans ((evaluated _ _).of_ok ran)
  | dispatch _ => rfl
  | before found made bound reached =>
    have binds := (Keeps.bindArguments _ _ _).context.of_ok bound
    have conditions := reached.keeps (evaluated _)
    exact conditions.trans (binds.trans ((scopes _).of_ok made))
  | body found made bound admitted reached =>
    have binds := (Keeps.bindArguments _ _ _).context.of_ok bound
    have admits := (Keeps.inScope (.allHold (evaluationKeeps setup _).evaluate _)).context.of_ok
      admitted
    have statements := reached.keeps (executed _)
    exact statements.trans (admits.trans (binds.trans ((scopes _).of_ok made)))
  | after found made bound admitted ran noted reached =>
    have binds := (Keeps.bindArguments _ _ _).context.of_ok bound
    have admits := (Keeps.inScope (.allHold (evaluationKeeps setup _).evaluate _)).context.of_ok
      admitted
    have runs := (Keeps.inScope (.sequence (evaluationKeeps setup _).execute _)).context.of_ok ran
    have notes := (Keeps.define _ _ _).context.of_ok noted
    have conditions := reached.keeps (evaluated _)
    exact conditions.trans (notes.trans (runs.trans (admits.trans
      (binds.trans ((scopes _).of_ok made)))))
  | value _ => rfl
  | clause reached => exact reached.keeps (evaluated _)
  | block made reached =>
    have makes := (scopes _).of_ok made
    have statements := reached.keeps (executed _)
    exact statements.trans makes
  | branch ran _ => exact (evaluated _ _).of_ok ran
  | condition rounds => exact rounds.keeps (evaluated _ _).truthOf (executed _ _)
  | round rounds holds =>
    have turns := rounds.keeps (evaluated _ _).truthOf (executed _ _)
    exact ((evaluated _ _).truthOf.of_ok holds).trans turns
  | test traced made =>
    have traces := (Keeps.trace setup _).context.of_ok traced
    have makes := (scopes _).of_ok made
    exact makes.trans traces
  | load => rfl
  | @declaration depth path place space source program target s m m₁ m₂ m₃ m₄ m₅ m' found traced read made
      entered reached =>
    obtain ⟨loaded, -, rfl⟩ := findModule_ok found
    have traces := (Keeps.trace setup _).context.of_ok traced
    have reads := (Keeps.moduleDeclarations _ _ _).context.of_ok read
    have makes := (Keeps.importTarget setup _).context.of_ok made
    have enters := enterDirectory_context entered
    have statements := reached.keeps (executed _)
    have found : (Link.load ⟨m₁.host.site, m₁.directory, path⟩).import?.bind (Import.source? setup)
        = some source := by
      simp only [Link.import?, Option.bind_some, Import.source?, loaded]
    have started : m₄.context = (m₁.frames, source.name :: m₁.importing, m₁.directory) := by
      simp only [Machine.context, Prod.mk.injEq] at traces reads makes ⊢
      rw [makes.1, makes.2.1, makes.2.2, reads.1, reads.2.1, reads.2.2, traces.1, traces.2.1, traces.2.2]
      exact ⟨rfl, rfl, rfl⟩
    obtain ⟨frames, importing, directory⟩ : m₄.frames = m₁.frames ∧
        m₄.importing = source.name :: m₁.importing ∧ m₄.directory = m₁.directory := by
      simpa only [Machine.context, Prod.mk.injEq] using started
    rw [frames, importing, directory] at enters
    rw [Link.module?, Link.directory?, found]
    exact statements.trans enters

theorem Asks.progress {setup : Setup} {c c' : Config} {link : Link} (asks : Asks setup c link c') :
    c'.machine.progress = (link.frame?.toList ++ c.machine.frames,
      (link.module? setup).toList ++ c.machine.importing) :=
  congrArg (fun context => (context.1, context.2.1)) asks.context

/-- The calls that a state notes as being in progress are those on the trail. -/
theorem Trail.frames {setup : Setup} {c c' : Config} {links : List Link}
    (trail : Trail setup c links c') :
    c'.machine.frames = (links.filterMap Link.frame?).reverse ++ c.machine.frames := by
  induction trail with
  | here => rfl
  | @step c c₁ c' link links asks _ ih =>
    have begun := congrArg Prod.fst asks.progress
    simp only [Machine.progress] at begun
    rw [ih, begun]
    cases found : link.frame? with
    | none => simp [found]
    | some frame => simp [found]

/-- The modules that a state notes as being imported are those on the trail. -/
theorem Trail.importing {setup : Setup} {c c' : Config} {links : List Link}
    (trail : Trail setup c links c') :
    c'.machine.importing
      = (links.filterMap (Link.module? setup)).reverse ++ c.machine.importing := by
  induction trail with
  | here => rfl
  | @step c c₁ c' link links asks _ ih =>
    have begun := congrArg Prod.snd asks.progress
    simp only [Machine.progress] at begun
    rw [ih, begun]
    cases found : link.module? setup with
    | none => simp [found]
    | some name => simp [found]

/-! ## Disciplines along trails -/

namespace EvalM

variable {inv : Machine → Prop}

theorem Ensures.truthOf {post : Value → Prop} {step : EvalM Value} (h : Ensures inv post step) :
    Ensures inv (fun _ => True) (truthOf step) :=
  .bind h fun _ _ => .pure trivial

theorem Ensures.entry {post : Value → Prop} {value : Expr → EvalM Value} (depth : Nat)
    (h : ∀ e, Ensures inv post (value e)) (pair : Expr × Expr) :
    Ensures inv (fun _ => True) (entry depth value pair) :=
  .bind (h pair.1) fun _ _ => .bind (h pair.2) fun _ _ => .bind (.keyOf depth _) fun _ _ =>
    .pure trivial

end EvalM

theorem InTurn.ensures {ι α : Type} {inv : Machine → Prop} {post : α → Prop} {run : ι → EvalM α}
    {goOn : α → Prop} {items : List ι} {i : ι} {m m' : Machine}
    (h : ∀ i ∈ items, Ensures inv post (run i)) (hm : inv m)
    (reached : InTurn run goOn items m i m') : i ∈ items ∧ inv m' := by
  induction reached with
  | first => exact ⟨List.mem_cons_self, hm⟩
  | later ran _ _ ih =>
    rw [List.forall_mem_cons] at h
    obtain ⟨member, holds⟩ := ih h.2 (h.1.of_ok hm ran).1
    exact ⟨List.mem_cons_of_mem _ member, holds⟩

theorem Rounds.ensures {inv : Machine → Prop} {post : Signal → Prop} {condition : EvalM Bool}
    {body : EvalM Signal} {rounds left : Nat} {m m' : Machine}
    (hcondition : Ensures inv (fun _ => True) condition) (hbody : Ensures inv post body) (hm : inv m)
    (reached : Rounds condition body rounds m left m') : inv m' := by
  induction reached with
  | here => exact hm
  | again holds ran _ ih => exact ih (hbody.of_ok (hcondition.of_ok hm holds).1 ran).1

namespace Discipline

variable {setup : Setup} {D : Discipline setup}

theorem Holds.inScope {m : Machine} {id : ScopeId} (hm : D.Holds m) (hid : D.scope id) :
    D.Holds { m with scope := id } :=
  ⟨hm.1, hm.2.1, hm.2.2.1, hid⟩

/-- Evaluations that a discipline allows. -/
def Admits (D : Discipline setup) (c : Config) : Prop :=
  D.Holds c.machine ∧ match c.task with
    | .evaluate _ | .load _ _ _ => True
    | .call _ f arguments | .invoke f arguments => D.value f ∧ ∀ v ∈ arguments, D.value v
    | .execute s => D.code s

/-- The scope of a call of an allowed function, with its arguments, is allowed, and so is what the
function does in it. -/
theorem Holds.entered {m m₁ m₂ : Machine} {id : FunctionId} {c : Closure} {arguments : List Value}
    {scope : ScopeId} (hm : D.Holds m) (hf : D.value (.function id))
    (harguments : ∀ v ∈ arguments, D.value v) (found : m.store.closure? id = some c)
    (made : EvalM.newScope (some c.scope) m = .ok scope m₁)
    (bound : bind scope c.signature.parameters arguments m₁ = .ok () m₂) :
    D.Holds m₂ ∧ D.scope scope ∧ ∀ t ∈ c.body, D.code t := by
  obtain ⟨hscope, hcode⟩ := D.closure m.store id c hm.1 hf found
  obtain ⟨hm₁, hinner⟩ := (D.ensures_newScope hscope).of_ok hm made
  obtain ⟨hm₂, -⟩ := (D.ensures_bindArguments hinner _ harguments).of_ok hm₁ bound
  exact ⟨hm₂, hinner, hcode⟩

/-- What an allowed evaluation asks for is allowed. -/
theorem Admits.asks {c c' : Config} {link : Link} (h : D.Admits c) (asks : Asks setup c link c') :
    D.Admits c' := by
  obtain ⟨hm, htask⟩ := h
  have evaluated (depth) : ∀ es : List Expr, ∀ e ∈ es, Ensures D.Holds D.value (evaluate setup depth e) :=
    fun _ e _ => (D.rules depth).evaluate e
  -- each step in front of the question obeys the discipline, so the state in which it is put does
  have entries (depth) : ∀ pairs : List (Expr × Expr), ∀ pair ∈ pairs,
      Ensures D.Holds (fun _ => True) (entry depth (evaluate setup depth) pair) :=
    fun _ pair _ => .entry depth (D.rules depth).evaluate pair
  cases asks with
  | operand reached => exact ⟨(reached.ensures (evaluated _ _) hm).2, trivial⟩
  | mapKey reached => exact ⟨(reached.ensures (entries _ _) hm).2, trivial⟩
  | mapValue reached ran =>
    have hm₁ := (reached.ensures (entries _ _) hm).2
    exact ⟨((D.rules _).evaluate _ |>.of_ok hm₁ ran).1, trivial⟩
  | right ran _ => exact ⟨((D.rules _).evaluate _ |>.of_ok hm ran).1, trivial⟩
  | chosen ran => exact ⟨((D.rules _).evaluate _ |>.of_ok hm ran).1, trivial⟩
  | call ran passed =>
    obtain ⟨hm₁, hf⟩ := (D.rules _).evaluate _ |>.of_ok hm ran
    obtain ⟨hm', hvs⟩ := (D.ensures_values (D.rules _).evaluate _).of_ok hm₁ passed
    exact ⟨hm', hf, hvs⟩
  | dispatch _ => exact ⟨hm, htask⟩
  | before found made bound reached =>
    obtain ⟨hm₂, hscope, -⟩ := hm.entered htask.1 htask.2 found made bound
    exact ⟨(reached.ensures (evaluated _ _) (hm₂.inScope hscope)).2, trivial⟩
  | body found made bound admitted reached =>
    obtain ⟨hm₂, hscope, hcode⟩ := hm.entered htask.1 htask.2 found made bound
    obtain ⟨hm₃, -⟩ := (D.ensures_inScope hscope
      (D.ensures_allHold (D.rules _).evaluate _)).of_ok hm₂ admitted
    obtain ⟨member, hm'⟩ := reached.ensures (fun t ht => (D.rules _).execute t (hcode t ht))
      (hm₃.inScope hscope)
    exact ⟨hm', hcode _ member⟩
  | after found made bound admitted ran noted reached =>
    obtain ⟨hm₂, hscope, hcode⟩ := hm.entered htask.1 htask.2 found made bound
    obtain ⟨hm₃, -⟩ := (D.ensures_inScope hscope
      (D.ensures_allHold (D.rules _).evaluate _)).of_ok hm₂ admitted
    obtain ⟨hm₄, hsignal⟩ := (D.ensures_inScope hscope
      (D.ensures_sequence fun t ht => (D.rules _).execute t (hcode t ht))).of_ok hm₃ ran
    have hresult := D.value_of_carries _ hsignal
    obtain ⟨hm₅, -⟩ := (D.ensures_define hscope hresult).of_ok hm₄ noted
    exact ⟨(reached.ensures (evaluated _ _) (hm₅.inScope hscope)).2, trivial⟩
  | value _ => exact ⟨hm, trivial⟩
  | clause reached => exact ⟨(reached.ensures (evaluated _ _) hm).2, trivial⟩
  | block made reached =>
    obtain ⟨hm₁, hscope⟩ := (D.ensures_newScope hm.2.2.2).of_ok hm made
    obtain ⟨member, hm'⟩ := reached.ensures
      (fun t ht => (D.rules _).execute t (D.block _ htask t ht)) (hm₁.inScope hscope)
    exact ⟨hm', D.block _ htask _ member⟩
  | @branch depth condition whenTrue s whenFalse a m m' ran chosen =>
    refine ⟨((D.rules _).evaluate _ |>.of_ok hm ran).1, ?_⟩
    split at chosen
    · cases chosen
      exact D.branchTrue condition whenTrue whenFalse htask
    · subst chosen
      exact D.branchFalse condition whenTrue s htask
  | condition rounds =>
    exact ⟨rounds.ensures (Ensures.truthOf ((D.rules _).evaluate _))
      ((D.rules _).execute _ (D.loop _ _ htask)) hm, trivial⟩
  | round rounds holds =>
    have hm₁ := rounds.ensures (Ensures.truthOf ((D.rules _).evaluate _))
      ((D.rules _).execute _ (D.loop _ _ htask)) hm
    exact ⟨((Ensures.truthOf ((D.rules _).evaluate _)).of_ok hm₁ holds).1, D.loop _ _ htask⟩
  | test traced made =>
    obtain ⟨hm₁, -⟩ := (D.ensures_trace _).of_ok hm traced
    obtain ⟨hm₂, hscope⟩ := (D.ensures_newScope hm₁.2.2.2).of_ok hm₁ made
    exact ⟨hm₂.inScope hscope, D.test _ _ _ htask⟩
  | load => exact ⟨hm, trivial⟩
  | @declaration depth path place space source program target s m m₁ m₂ m₃ m₄ m₅ m' found traced read
      made entered reached =>
    obtain ⟨hm₁, offered⟩ := (D.ensures_findModule _ _).of_ok hm found
    obtain ⟨hm₂, -⟩ := (D.ensures_trace _).of_ok hm₁ traced
    have importing : D.Holds { m₂ with importing := source.name :: m₂.importing } := hm₂
    obtain ⟨hm₃, hcode⟩ := (D.ensures_moduleDeclarations _ _ offered).of_ok importing read
    obtain ⟨hm₄, hscope⟩ := (D.ensures_importTarget _).of_ok hm₃ made
    obtain ⟨hm₅, -⟩ := (D.ensures_enterDirectory _).of_ok hm₄ entered
    obtain ⟨member, hm'⟩ := reached.ensures (fun t ht => (D.rules _).execute t (hcode t ht))
      (hm₅.inScope hscope)
    exact ⟨hm', hcode _ member⟩

theorem Admits.trail {c c' : Config} {links : List Link} (h : D.Admits c)
    (trail : Trail setup c links c') : D.Admits c' := by
  induction trail with
  | here => exact h
  | step asks _ ih => exact ih (h.asks asks)

end Discipline

/-! ## Where the trails of a session begin -/

theorem Session.atRest_new (setup : Setup) (host : Host) : (Session.new setup host).AtRest :=
  rfl

/-- What the top level asks evaluation to do for a statement. -/
def Stmt.topTask : Stmt → Task
  | .expression e => .evaluate e
  | s => .execute s

/-- A script of a session is well formed, and running it comes to a statement of it in some
state. -/
def Session.Begins (session : Session) (source : String) (name : Option String) (s : Stmt)
    (m : Machine) : Prop :=
  ∃ program, Program.ofSource session.setup.settings.testMode (name <|> session.file) source
      = (program, []) ∧
    InTurn (runTop session.setup) (fun _ => True) program
      { session.machine with events := [], frames := [] } s m

/-- The evaluation of a statement at the top level. -/
def Config.top (setup : Setup) (s : Stmt) (m : Machine) : Config :=
  ⟨setup.limits.depth, s.topTask, m⟩

/-- Scripts as a session reads them: one that is given no name has that of the script before. -/
def Report.Script.inTurn (file : Option String) : List (String × Option String) → List Report.Script
  | [] => []
  | (source, name) :: rest => ⟨source, name <|> file⟩ :: inTurn (name <|> file) rest

theorem Session.file_handle (session : Session) (source : String) (name : Option String) :
    (session.handle source name).2.file = (name <|> session.file) := by
  unfold handle
  dsimp only
  split <;> rfl

theorem Report.Script.inTurn_append (session : Session) (scripts : List (String × Option String))
    (source : String) (name : Option String) :
    inTurn session.file (scripts ++ [(source, name)])
      = inTurn session.file scripts ++ [⟨source, name <|> (session.after scripts).file⟩] := by
  induction scripts generalizing session with
  | nil => rfl
  | cons script rest ih =>
    have others := ih (session.handle script.1 script.2).2
    rw [Session.file_handle] at others
    exact congrArg (⟨script.1, script.2 <|> session.file⟩ :: ·) others

namespace Discipline

variable {setup : Setup} {D : Discipline setup}

/-- A script obeys a discipline if it is not well formed, or its statements are allowed. -/
def Allows (D : Discipline setup) (script : Report.Script) : Prop :=
  (Program.ofSource setup.settings.testMode script.file script.source).2 = [] →
    ∀ t ∈ (Program.ofSource setup.settings.testMode script.file script.source).1, D.code t

/-- A discipline that a session starts under, and that its scripts obey. -/
structure Governs (D : Discipline setup) (host : Host) : Prop where
  start : D.Holds (Session.start setup host)
  reported : D.tests []
  script : ∀ file source, (Program.ofSource setup.settings.testMode file source).2 = [] →
    ∀ t ∈ (Program.ofSource setup.settings.testMode file source).1, D.code t

theorem ensures_runTop {s : Stmt} (h : D.code s) :
    Ensures D.Holds (fun _ => True) (runTop setup s) := by
  have run := D.rules setup.limits.depth
  unfold runTop
  split
  · refine .bind (run.evaluate _) fun v _ => ?_
    split
    · exact .bind (.shown _ _) fun _ _ => .bind (D.ensures_note _) fun _ _ => .pure trivial
    · exact .pure trivial
  · exact .bind (run.execute _ h) fun _ _ => .pure trivial

theorem ensures_runAll {program : Program} (h : ∀ t ∈ program, D.code t) :
    ∀ last, Ensures D.Holds (fun _ => True) (runAll setup last program) := by
  induction program with
  | nil => exact fun _ => .pure trivial
  | cons s rest ih =>
    rw [List.forall_mem_cons] at h
    exact fun _ => .bind (D.ensures_runTop h.1) fun v _ => ih h.2 v

theorem ensures_reportTests (h : D.tests []) : Ensures D.Holds (fun _ => True) (reportTests setup) := by
  refine .bind .get fun m _ => ?_
  dsimp only
  split
  · exact .pure trivial
  · exact .bind (D.ensures_note _) fun _ _ => .modify fun m hm => ⟨hm.1, hm.2.1, h, hm.2.2.2⟩

theorem ensures_interpret (describe : Fault → String) {program : Program} (hreported : D.tests [])
    (h : ∀ t ∈ program, D.code t) :
    Ensures D.Holds (fun _ => True) (interpret setup describe program) := by
  refine .bind (D.ensures_runAll h .nil).catchFault fun result _ => ?_
  cases result with
  | ok v => exact .bind (D.ensures_reportTests hreported) fun _ _ => .pure trivial
  | error f =>
    exact .bind (D.ensures_trace _) fun _ _ => .bind (D.ensures_note _) fun _ _ =>
      .bind (D.ensures_reportTests hreported) fun _ _ => .pure trivial

/-- A script leaves a session under a discipline that it obeys. -/
theorem holds_handle (reported : D.tests []) {session : Session} (same : session.setup = setup)
    (hm : D.Holds session.machine) {source : String} {name : Option String}
    (allows : D.Allows ⟨source, name <|> session.file⟩) :
    D.Holds (session.handle source name).2.machine := by
  subst same
  -- neither events nor frames are of any concern to a discipline
  have fresh : D.Holds { session.machine with events := [], frames := [] } := hm
  unfold Session.handle
  dsimp only
  split
  · rename_i quiet
    have obeys := allows (List.isEmpty_iff.mp quiet)
    have ran := D.ensures_interpret (Report.ofFault ⟨source, name <|> session.file⟩) reported obeys
    unfold Session.runProgram
    dsimp only
    split
    · rename_i run
      exact (ran.of_ok fresh run).1
    · rename_i run
      exact (ran.of_ok fresh run).1
    · rename_i run
      exact ran.of_error fresh run
    · rename_i run
      have ended := ran.of_error fresh run
      exact ended
    · rename_i run
      exact ran.of_error fresh run
    · rename_i run
      exact ran.of_error fresh run
  · exact fresh

theorem holds_after (reported : D.tests []) :
    ∀ (scripts : List (String × Option String)) {session : Session}, session.setup = setup →
      D.Holds session.machine →
      (∀ script ∈ Report.Script.inTurn session.file scripts, D.Allows script) →
        D.Holds (session.after scripts).machine := by
  intro scripts
  induction scripts with
  | nil => exact fun _ hm _ => hm
  | cons script rest ih =>
    intro session same hm allows
    rw [Report.Script.inTurn, List.forall_mem_cons] at allows
    refine ih ?_ (D.holds_handle reported same hm allows.1) ?_
    · rw [Session.setup_handle, same]
    · rw [Session.file_handle]
      exact allows.2

/-- Wherever a script has got to at the top level, a discipline that it obeys admits what comes
next. -/
theorem admits_begins {session : Session} (same : session.setup = setup)
    (hm : D.Holds session.machine) {source : String} {name : Option String}
    (allows : D.Allows ⟨source, name <|> session.file⟩) {s : Stmt} {m : Machine}
    (begins : session.Begins source name s m) :
    D.Holds m ∧ D.code s ∧ D.Admits (.top setup s m) := by
  subst same
  obtain ⟨program, read, reached⟩ := begins
  have fresh : D.Holds { session.machine with events := [], frames := [] } := hm
  have obeys : ∀ t ∈ program, D.code t := by
    have script := allows
    rw [Allows, read] at script
    exact script rfl
  obtain ⟨member, holds⟩ := reached.ensures (fun t ht => D.ensures_runTop (obeys t ht)) fresh
  have hcode := obeys s member
  refine ⟨holds, hcode, holds, ?_⟩
  cases s with
  | expression => trivial
  | _ => exact hcode

theorem Governs.after {host : Host} (governs : D.Governs host)
    (scripts : List (String × Option String)) {session : Session} (same : session.setup = setup)
    (hm : D.Holds session.machine) : D.Holds (session.after scripts).machine :=
  D.holds_after governs.reported scripts same hm fun script _ => governs.script script.file script.source

theorem Governs.begins {host : Host} (governs : D.Governs host)
    {scripts : List (String × Option String)} {source : String} {name : Option String} {s : Stmt}
    {m : Machine} (begins : ((Session.new setup host).after scripts).Begins source name s m) :
    D.Holds m ∧ D.code s ∧ D.Admits (.top setup s m) :=
  D.admits_begins (Session.atRest_new setup host |>.after scripts).2
    (governs.after scripts rfl governs.start) (governs.script _ _) begins

end Discipline

/-- At the top level nothing is in progress, and imports are seen from the directory of the
session. -/
theorem Session.Begins.context {setup : Setup} {host : Host}
    {scripts : List (String × Option String)} {source : String} {name : Option String} {s : Stmt}
    {m : Machine} (begins : ((Session.new setup host).after scripts).Begins source name s m) :
    m.context = ([], [], setup.settings.directory) := by
  obtain ⟨program, read, reached⟩ := begins
  have kept := reached.keeps fun t => (runTop_keeps _ t).context
  obtain ⟨rests, same⟩ := (Session.atRest_new setup host).after scripts
  rw [kept]
  unfold Session.AtRest Machine.surroundings at rests
  rw [Session.atRest, Surroundings.mk.injEq, same] at rests
  unfold Machine.context
  rw [rests.2.2.1, rests.2.2.2]
  rfl

theorem Session.Begins.progress {setup : Setup} {host : Host}
    {scripts : List (String × Option String)} {source : String} {name : Option String} {s : Stmt}
    {m : Machine} (begins : ((Session.new setup host).after scripts).Begins source name s m) :
    m.progress = ([], []) :=
  congrArg (fun context => (context.1, context.2.1)) begins.context

/-- The surroundings of a run that has no files and no input. -/
def Host.bare : Host :=
  ⟨.empty, "/", "/", [], ⟨[], 0⟩, ⟨[], 0⟩, ⟨[], [], [], .byClock⟩⟩

end ContractScript
