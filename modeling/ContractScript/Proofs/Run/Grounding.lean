/-
Everything that is referred to is there.

A run follows itself: compared with itself, with references called the same on both sides,
it passes through states that are like themselves. Being like itself is no empty thing to
say of a state. It means that every list, map, function and scope that is referred to is
one of the store, from the current scope to the items of a list. So the comparison of runs
shows, without another look at evaluation, that no reference leads nowhere.

Together with the nesting of scopes this is what the states of a session have in common.
-/
import ContractScript.Proofs.Run.Nesting
import ContractScript.Proofs.Run.Places

set_option autoImplicit false

namespace ContractScript

open EvalM

/-! ## A run compared with itself -/

/-- The comparison of a run with itself. -/
def Terms.self : Terms where
  place := Eq
  mode := .tested
  exact := true
  event := Eq
  earlier := []
  earlier' := []
  refl _ := rfl
  sameEvent _ := rfl
  warning := Terms.sameWarning
  renames := nofun

theorem EvalM.Follows.of_ok {α : Type} {T : Terms} {ρ : Renaming} {good : Renaming → α → α → Prop}
    {x : EvalM α} {m m' : Machine} {a : α} (h : Follows T ρ good x x) (like : m.Like T ρ m)
    (ran : x m = .ok a m') : ∃ σ, ρ ≤ σ ∧ m'.Like T σ m' ∧ good σ a a := by
  have ends := h m m like
  rw [ran] at ends
  cases ends with
  | ok grown state holds => exact ⟨_, grown, state, holds⟩

theorem EvalM.Follows.finalState {α : Type} {ρ : Renaming} {good : Renaming → α → α → Prop}
    {x : EvalM α} {m : Machine} (h : Follows .self ρ good x x) (like : m.Like .self ρ m) :
    ∃ σ, ρ ≤ σ ∧ (EvalM.finalState x m).Like .self σ (EvalM.finalState x m) := by
  have ends := h m m like
  unfold EvalM.finalState
  generalize x m = r at ends
  cases ends with
  | ok grown state _ => exact ⟨_, grown, state⟩
  | error grown state _ => exact ⟨_, grown, state⟩
  | given allowed => cases allowed

theorem InTurn.follows {ι α : Type} {T : Terms} {good : Renaming → α → α → Prop} {run : ι → EvalM α}
    {goOn : α → Prop} {items : List ι} {i : ι} {m m' : Machine}
    (h : ∀ ρ i, Follows T ρ good (run i) (run i)) (reached : InTurn run goOn items m i m') :
    ∀ {ρ : Renaming}, m.Like T ρ m → ∃ σ, ρ ≤ σ ∧ m'.Like T σ m' := by
  induction reached with
  | first => exact fun like => ⟨_, Renaming.le_refl _, like⟩
  | later ran _ _ ih =>
    intro ρ like
    obtain ⟨σ, grown, like₁, -⟩ := (h ρ _).of_ok like ran
    obtain ⟨τ, more, like'⟩ := ih like₁
    exact ⟨τ, Renaming.le_trans grown more, like'⟩

theorem Rounds.follows {T : Terms} {condition : EvalM Bool} {body : EvalM Signal} {rounds left : Nat}
    {m m' : Machine} (hcondition : ∀ ρ, Follows T ρ Same condition condition)
    (hbody : ∀ ρ, Follows T ρ Signal.Like body body)
    (reached : Rounds condition body rounds m left m') :
    ∀ {ρ : Renaming}, m.Like T ρ m → ∃ σ, ρ ≤ σ ∧ m'.Like T σ m' := by
  induction reached with
  | here => exact fun like => ⟨_, Renaming.le_refl _, like⟩
  | again holds ran _ ih =>
    intro ρ like
    obtain ⟨σ, grown, like₁, -⟩ := (hcondition ρ).of_ok like holds
    obtain ⟨τ, more, like₂, -⟩ := (hbody σ).of_ok like₁ ran
    obtain ⟨υ, most, like'⟩ := ih like₂
    exact ⟨υ, Renaming.le_trans grown (Renaming.le_trans more most), like'⟩

/-- The values that a task is given. -/
def Task.values : Task → List Value
  | .call _ f arguments | .invoke f arguments => f :: arguments
  | _ => []

/-- An evaluation that is like itself, with the values it is given. -/
def Config.LikeItself (ρ : Renaming) (c : Config) : Prop :=
  c.machine.Like .self ρ c.machine ∧ ∀ v ∈ c.task.values, v.Like ρ v

section Questions

variable {setup : Setup} {ρ : Renaming}

/-- Statements are like themselves, whatever tests are in them. -/
theorem Stmt.like_self (s : Stmt) : s.Like Terms.self.place Terms.self.mode s :=
  .refl s fun other => absurd rfl other

theorem Stmt.like_self_all (body : List Stmt) :
    List.Forall₂ (Stmt.Like Terms.self.place Terms.self.mode) body body :=
  Stmt.Like.reflAll body fun other => absurd rfl other

theorem evaluate_self (depth : Nat) (ρ : Renaming) (e : Expr) :
    Follows .self ρ Value.Like (evaluate setup depth e) (evaluate setup depth e) :=
  (evaluationFollows .self setup depth).evaluate ρ e e (.refl e)

theorem execute_self (depth : Nat) (ρ : Renaming) (s : Stmt) :
    Follows .self ρ Signal.Like (execute setup depth s) (execute setup depth s) :=
  (evaluationFollows .self setup depth).execute ρ s s s.like_self

theorem truthOf_self (depth : Nat) (ρ : Renaming) (e : Expr) :
    Follows .self ρ Same (truthOf (evaluate setup depth e)) (truthOf (evaluate setup depth e)) :=
  .bind (evaluate_self depth ρ e) fun _ _ _ _ like => .pure like.isTruthy

theorem entry_self (depth : Nat) (ρ : Renaming) (pair : Expr × Expr) :
    Follows .self ρ Whatever (entry depth (evaluate setup depth) pair)
      (entry depth (evaluate setup depth) pair) :=
  .bind (evaluate_self depth ρ pair.1) fun σ _ _ _ key =>
    .bind (evaluate_self depth σ pair.2) fun _ _ _ more _ =>
    .bind (.keyOf depth (key.mono more)) fun _ _ _ _ _ => .pure trivial

theorem conditions_self (depth : Nat) (ρ : Renaming) (es : List Expr) :
    Follows .self ρ Same (allHold (evaluate setup depth) es) (allHold (evaluate setup depth) es) :=
  .allHold (evaluationFollows .self setup depth).evaluate (Expr.Like.reflAll es) ρ

theorem body_self (depth : Nat) (ρ : Renaming) (body : List Stmt) :
    Follows .self ρ Signal.Like (sequence (execute setup depth) body)
      (sequence (execute setup depth) body) :=
  .sequence (evaluationFollows .self setup depth).execute (Stmt.like_self_all body) ρ

/-- The scope of a call, with its arguments, is like itself. -/
theorem Machine.Like.entered {m m₁ m₂ : Machine} {id : FunctionId} {c : Closure}
    {arguments : List Value} {scope : ScopeId} (like : m.Like .self ρ m)
    (hf : (Value.function id).Like ρ (.function id)) (harguments : ∀ v ∈ arguments, v.Like ρ v)
    (found : m.store.closure? id = some c) (made : newScope (some c.scope) m = .ok scope m₁)
    (bound : EvalM.bind scope c.signature.parameters arguments m₁ = .ok () m₂) :
    ∃ σ, ρ ≤ σ ∧ m₂.Like .self σ m₂ ∧ σ.scopes scope scope := by
  cases hf with
  | function same =>
    obtain ⟨c₁, c₂, found₁, found₂, closure⟩ := like.store.closure? same
    cases found₁.symm.trans found
    cases found₂.symm.trans found
    obtain ⟨σ, grown, like₁, here⟩ := (Follows.newScope closure.scope).of_ok like made
    have values : List.Forall₂ (Value.Like σ) arguments arguments :=
      List.forall₂_same.mpr fun v member => (harguments v member).mono grown
    have binding : Follows .self σ Whatever (EvalM.bind scope c.signature.parameters arguments)
        (EvalM.bind scope c.signature.parameters arguments) :=
      .bindArguments (List.forall₂_same.mpr fun l _ => .refl l) here values
    obtain ⟨τ, more, like₂, -⟩ := binding.of_ok like₁ bound
    exact ⟨τ, Renaming.le_trans grown more, like₂, more.scopes _ _ here⟩

/-- What an evaluation that is like itself asks for is like itself. -/
theorem Asks.likeItself {c c' : Config} {link : Link} (asks : Asks setup c link c')
    (h : c.LikeItself ρ) : ∃ σ, ρ ≤ σ ∧ c'.LikeItself σ := by
  obtain ⟨like, given⟩ := h
  -- most questions come with no values of their own
  have plain : ∀ {c' : Config}, c'.task.values = [] →
      (∃ σ, ρ ≤ σ ∧ c'.machine.Like .self σ c'.machine) → ∃ σ, ρ ≤ σ ∧ c'.LikeItself σ := by
    rintro c' none ⟨σ, grown, like'⟩
    refine ⟨σ, grown, like', ?_⟩
    rw [none]
    exact fun v member => absurd member List.not_mem_nil
  cases asks with
  | operand reached => exact plain rfl (reached.follows (evaluate_self _) like)
  | mapKey reached => exact plain rfl (reached.follows (entry_self _) like)
  | mapValue reached ran =>
    obtain ⟨σ, grown, like₁⟩ := reached.follows (entry_self _) like
    obtain ⟨τ, more, like', -⟩ := (evaluate_self _ σ _).of_ok like₁ ran
    exact plain rfl ⟨τ, Renaming.le_trans grown more, like'⟩
  | right ran _ =>
    obtain ⟨σ, grown, like', -⟩ := (evaluate_self _ ρ _).of_ok like ran
    exact plain rfl ⟨σ, grown, like'⟩
  | chosen ran =>
    obtain ⟨σ, grown, like', -⟩ := (evaluate_self _ ρ _).of_ok like ran
    exact plain rfl ⟨σ, grown, like'⟩
  | @call depth _ _ arguments _ _ _ _ _ ran passed =>
    obtain ⟨σ, grown, like₁, callee⟩ := (evaluate_self _ ρ _).of_ok like ran
    have follows := Follows.values (evaluationFollows .self setup depth).evaluate
      (Expr.Like.reflAll arguments) σ
    obtain ⟨τ, more, like', values⟩ := follows.of_ok like₁ passed
    refine ⟨τ, Renaming.le_trans grown more, like', fun v member => ?_⟩
    rcases List.mem_cons.mp member with rfl | member
    · exact callee.mono more
    · exact List.forall₂_same.mp values v member
  | dispatch _ =>
    refine ⟨ρ, Renaming.le_refl ρ, { like with frames := ?_ }, given⟩
    exact List.forall₂_same.mpr fun _ _ => ⟨rfl, rfl⟩
  -- the questions of a call are put in its scope, which stays matched with itself from then on
  | before found made bound reached =>
    obtain ⟨σ, grown, like₂, here⟩ := like.entered (given _ List.mem_cons_self)
      (fun v member => given v (List.mem_cons_of_mem _ member)) found made bound
    obtain ⟨τ, more, like'⟩ := reached.follows (evaluate_self _) (like₂.withScope here)
    exact plain rfl ⟨τ, Renaming.le_trans grown more, like'⟩
  | body found made bound admitted reached =>
    obtain ⟨σ, grown, like₂, here⟩ := like.entered (given _ List.mem_cons_self)
      (fun v member => given v (List.mem_cons_of_mem _ member)) found made bound
    obtain ⟨τ, more, like₃, -⟩ := (Follows.inScope here (conditions_self _ σ _)).of_ok like₂ admitted
    obtain ⟨υ, most, like'⟩ := reached.follows (execute_self _)
      (like₃.withScope (more.scopes _ _ here))
    exact plain rfl ⟨υ, Renaming.le_trans grown (Renaming.le_trans more most), like'⟩
  | after found made bound admitted ran noted reached =>
    obtain ⟨σ, grown, like₂, here⟩ := like.entered (given _ List.mem_cons_self)
      (fun v member => given v (List.mem_cons_of_mem _ member)) found made bound
    obtain ⟨τ, more, like₃, -⟩ := (Follows.inScope here (conditions_self _ σ _)).of_ok like₂ admitted
    have here₃ := more.scopes _ _ here
    obtain ⟨υ, most, like₄, signal⟩ := (Follows.inScope here₃ (body_self _ τ _)).of_ok like₃ ran
    have here₄ := most.scopes _ _ here₃
    obtain ⟨φ, further, like₅, -⟩ := (Follows.define here₄ "result" signal.result).of_ok like₄ noted
    obtain ⟨ψ, last, like'⟩ := reached.follows (evaluate_self _)
      (like₅.withScope (further.scopes _ _ here₄))
    exact plain rfl ⟨ψ, Renaming.le_trans grown (Renaming.le_trans more
      (Renaming.le_trans most (Renaming.le_trans further last))), like'⟩
  | value _ => exact plain rfl ⟨ρ, Renaming.le_refl ρ, like⟩
  | clause reached => exact plain rfl (reached.follows (evaluate_self _) like)
  | block made reached =>
    obtain ⟨σ, grown, like₁, here⟩ := (Follows.newScope like.scope).of_ok like made
    obtain ⟨τ, more, like'⟩ := reached.follows (execute_self _) (like₁.withScope here)
    exact plain rfl ⟨τ, Renaming.le_trans grown more, like'⟩
  | branch ran _ =>
    obtain ⟨σ, grown, like', -⟩ := (evaluate_self _ ρ _).of_ok like ran
    exact plain rfl ⟨σ, grown, like'⟩
  | condition rounds =>
    exact plain rfl (rounds.follows (fun σ => truthOf_self _ σ _) (fun σ => execute_self _ σ _) like)
  | round rounds holds =>
    obtain ⟨σ, grown, like₁⟩ :=
      rounds.follows (fun σ => truthOf_self _ σ _) (fun σ => execute_self _ σ _) like
    obtain ⟨τ, more, like', -⟩ := (truthOf_self _ σ _).of_ok like₁ holds
    exact plain rfl ⟨τ, Renaming.le_trans grown more, like'⟩
  | test traced made =>
    obtain ⟨σ, grown, like₁, -⟩ := (Follows.trace setup _).of_ok like traced
    obtain ⟨τ, more, like₂, here⟩ := (Follows.newScope like₁.scope).of_ok like₁ made
    exact plain rfl ⟨τ, Renaming.le_trans grown more, like₂.withScope here⟩
  | load => exact plain rfl ⟨ρ, Renaming.le_refl ρ, like⟩
  | @declaration depth path place space source program target s m m₁ m₂ m₃ m₄ m₅ m' found traced read
      made entered reached =>
    have lexeme : (pathLexeme path place).Like Terms.self.place (pathLexeme path place) := .refl _
    obtain ⟨σ, first, like₁, -⟩ := (Follows.findModule setup lexeme path).of_ok like found
    obtain ⟨τ, second, like₂, -⟩ := (Follows.trace setup _).of_ok like₁ traced
    have importing : Machine.Like .self τ { m₂ with importing := source.name :: m₂.importing }
        { m₂ with importing := source.name :: m₂.importing } := { like₂ with importing := fun _ => Iff.rfl }
    obtain ⟨υ, third, like₃, -⟩ := (Follows.moduleDeclarations lexeme path source).of_ok importing read
    have named : Option.Rel (Lexeme.Like Terms.self.place) space space :=
      optionRel_refl fun l _ => .refl l
    obtain ⟨φ, fourth, like₄, here⟩ := (Follows.importTarget setup named).of_ok like₃ made
    obtain ⟨ψ, fifth, like₅, -⟩ := (Follows.enterDirectory source.directory).of_ok like₄ entered
    obtain ⟨χ, sixth, like'⟩ := reached.follows (execute_self _)
      (like₅.withScope (fifth.scopes _ _ here))
    exact plain rfl ⟨χ, Renaming.le_trans first (Renaming.le_trans second (Renaming.le_trans third
      (Renaming.le_trans fourth (Renaming.le_trans fifth sixth)))), like'⟩

theorem Trail.likeItself {c c' : Config} {links : List Link} (trail : Trail setup c links c') :
    ∀ {ρ : Renaming}, c.LikeItself ρ → ∃ σ, ρ ≤ σ ∧ c'.LikeItself σ := by
  induction trail with
  | here => exact fun h => ⟨_, Renaming.le_refl _, h⟩
  | step asks _ ih =>
    intro ρ h
    obtain ⟨σ, grown, h₁⟩ := asks.likeItself h
    obtain ⟨τ, more, h'⟩ := ih h₁
    exact ⟨τ, Renaming.le_trans grown more, h'⟩

end Questions

/-- Statements at the top level are given no values. -/
theorem Config.likeItself_top {setup : Setup} {ρ : Renaming} {m : Machine} (like : m.Like .self ρ m)
    (s : Stmt) : Config.LikeItself ρ (.top setup s m) := by
  have none : s.topTask.values = [] := by cases s <;> rfl
  refine ⟨like, ?_⟩
  show ∀ v ∈ s.topTask.values, v.Like ρ v
  rw [none]
  exact fun v member => absurd member List.not_mem_nil

/-- Where an evaluation that is like itself ends, the state is like itself. -/
theorem Config.LikeItself.finalState (setup : Setup) {ρ : Renaming} {c : Config}
    (h : c.LikeItself ρ) : ∃ σ, (c.finalState setup).Like .self σ (c.finalState setup) := by
  obtain ⟨like, given⟩ := h
  have run := evaluationFollows .self setup c.depth
  obtain ⟨depth, task, m⟩ := c
  -- the values that a task is given, as far as it is given any
  have passed {f : Value} {arguments : List Value} (same : task.values = f :: arguments) :
      f.Like ρ f ∧ List.Forall₂ (Value.Like ρ) arguments arguments := by
    rw [same] at given
    exact ⟨given f List.mem_cons_self,
      List.forall₂_same.mpr fun v member => given v (List.mem_cons_of_mem _ member)⟩
  have ends : ∃ σ, ρ ≤ σ ∧ (Config.finalState setup ⟨depth, task, m⟩).Like .self σ
      (Config.finalState setup ⟨depth, task, m⟩) := by
    cases task with
    | evaluate e => exact (run.evaluate ρ e e (.refl e)).finalState like
    | call place f arguments =>
      exact (run.callValue ρ _ _ _ _ _ _ rfl (passed rfl).1 (passed rfl).2).finalState like
    | invoke f arguments =>
      exact (run.invoke ρ _ _ _ _ (passed rfl).1 (passed rfl).2).finalState like
    | execute s => exact (run.execute ρ s s s.like_self).finalState like
    | load path place space =>
      exact (run.importModule ρ path _ _ _ _ rfl (optionRel_refl fun l _ => .refl l)).finalState like
  obtain ⟨σ, -, like'⟩ := ends
  exact ⟨σ, like'⟩

/-! ## No reference leads nowhere -/

/-- What a value refers to is there. -/
def Store.Has (s : Store) : Value → Prop
  | .list id => id < s.lists.size
  | .map id => id < s.maps.size
  | .function id => id < s.functions.size
  | .nil | .bool _ | .num _ | .text _ | .native _ => True

/-- Everything is there that names, lists and maps refer to. -/
structure Store.Whole (s : Store) : Prop where
  names : ∀ id name v, (s.scope id).bindings.get? name = some v → s.Has v
  items : ∀ id, ∀ v ∈ s.items id, s.Has v
  entries : ∀ id, ∀ e ∈ (s.content id).values, s.Has e.key ∧ s.Has e.value

section Whole

variable {T : Terms} {ρ : Renaming} {s : Store}

theorem Store.Like.has (h : s.Like T ρ s) {v : Value} (like : v.Like ρ v) : s.Has v := by
  cases like with
  | list same => exact (h.lists.lt_size same).1
  | map same => exact (h.maps.lt_size same).1
  | function same => exact (h.functions.lt_size same).1
  | nil | bool | num | text | native => trivial

/-- A store that is like itself, with all its cells matched, is whole. -/
theorem Store.Like.whole (h : s.Like T ρ s) (named : T.exact = true) : s.Whole where
  names id name v found := by
    by_cases there : id < s.scopes.size
    · -- a scope stands for itself, so what its names mean is matched and therefore there
      have like := h.scope ((h.scopes.named named).2 id there)
      have values := like.bindings.get? OrderedMap.agrees_eq (rfl : name = name)
      rw [found] at values
      cases values with
      | some value => exact h.has value
    · rw [Store.scope_of_size_le (Nat.le_of_not_lt there)] at found
      cases found
  items id v member := by
    by_cases there : id < s.lists.size
    · have like := h.items ((h.lists.named named).2 id there)
      exact h.has (List.forall₂_same.mp like v (Array.mem_toList_iff.mpr member))
    · unfold Store.items at member
      rw [Array.getD_eq_getD_getElem?, Array.getElem?_eq_none (Nat.le_of_not_lt there)] at member
      exact absurd member (Array.not_mem_empty v)
  entries id e member := by
    by_cases there : id < s.maps.size
    · have like := (h.content ((h.maps.named named).2 id there)).values
      have entry := List.forall₂_same.mp like e member
      exact ⟨h.has entry.key, h.has entry.value⟩
    · unfold Store.content at member
      rw [Array.getD_eq_getD_getElem?, Array.getElem?_eq_none (Nat.le_of_not_lt there)] at member
      exact absurd member List.not_mem_nil

end Whole

/-! ## Sessions -/

theorem Fault.Like.eq {f f' : Fault} (h : f.Like Eq f') : f = f' := by
  have frames : ∀ g g' : Frame, g.Like Eq g' → g = g' := by
    rintro ⟨name, place⟩ ⟨name', place'⟩ ⟨same, at'⟩
    cases same
    cases at'
    rfl
  obtain ⟨cause, lexeme, stack⟩ := f
  obtain ⟨cause', lexeme', stack'⟩ := f'
  obtain ⟨sameCause, sameLexeme, sameStack⟩ := h
  cases sameCause
  have located : lexeme = lexeme' := by
    cases sameLexeme with
    | none => rfl
    | @some l l' like =>
      obtain ⟨text, place⟩ := l
      obtain ⟨text', place'⟩ := l'
      cases like.text
      cases like.place
      rfl
  have called : stack = stack' := by
    cases sameStack with
    | none => rfl
    | some like => exact congrArg some (eq_of_forall₂ frames like)
  rw [located, called]

theorem TestResult.Like.eq {r r' : TestResult} (h : r.Like Eq r') : r = r' := by
  obtain ⟨name, line, failure⟩ := r
  obtain ⟨name', line', failure'⟩ := r'
  obtain ⟨sameName, ⟨p, p', at', left, right⟩, sameFailure⟩ := h
  cases at'
  cases sameName
  cases sameFailure
  cases left
  cases right
  rfl

namespace Session

/-- A session that is like itself. -/
def LikeItself (session : Session) : Prop :=
  ∃ ρ, session.machine.Like .self ρ session.machine

theorem likeItself_new (setup : Setup) (host : Host) : (Session.new setup host).LikeItself :=
  ⟨references, start_like setup host rfl rfl⟩

theorem LikeItself.ready {session : Session} (h : session.LikeItself) :
    ∃ ρ, session.ready.Like .self ρ session.ready := by
  obtain ⟨ρ, like⟩ := h
  exact ⟨ρ, { like with events := ⟨[], [], rfl, rfl, .nil⟩, frames := .nil }⟩

/-- A script leaves a session like itself. -/
theorem LikeItself.handle {session : Session} (h : session.LikeItself) (source : String)
    (name : Option String) : (session.handle source name).2.LikeItself := by
  obtain ⟨ρ, like⟩ := h.ready
  have catching : Terms.self.mode ≠ .erasing := nofun
  unfold Session.handle
  dsimp only
  split
  · generalize Program.ofSource session.setup.settings.testMode (name <|> session.file) source = read
    let script : Report.Script := ⟨source, name <|> session.file⟩
    -- what is reported is made of parts that are the same on both sides
    have described : ∀ f f', Fault.Like Terms.self.place f f' → Terms.self.event
        (.effect .error (Report.ofFault script f)) (.effect .error (Report.ofFault script f')) := by
      intro f f' same
      rw [Fault.Like.eq same]
      rfl
    have reported : Terms.self.mode = .tested → ∀ rs rs',
        List.Forall₂ (TestResult.Like Terms.self.place) rs rs' → Terms.self.event
          (.effect .output (Report.ofTests session.setup.render rs)) (.effect .output (Report.ofTests session.setup.render rs')) := by
      intro _ rs rs' same
      rw [eq_of_forall₂ (fun _ _ => TestResult.Like.eq) same]
      rfl
    obtain ⟨σ, -, -, like'⟩ : ∃ σ, ρ ≤ σ ∧ Outcome.Like .self σ script script
        (runProgram ⟨session.setup, session.ready, session.file⟩ script read.1).1
        (runProgram ⟨session.setup, session.ready, session.file⟩ script read.1).1 ∧
        (runProgram ⟨session.setup, session.ready, session.file⟩ script read.1).2.Like .self σ
          (runProgram ⟨session.setup, session.ready, session.file⟩ script read.1).2 :=
      runProgram_like catching described reported (Stmt.like_self_all read.1) like _ _
    exact ⟨σ, like'⟩
  · exact ⟨ρ, { like with events := ⟨_, _, (List.append_nil _).symm, (List.append_nil _).symm,
      List.forall₂_same.mpr fun _ _ => rfl⟩ }⟩

theorem LikeItself.after {session : Session} (h : session.LikeItself)
    (scripts : List (String × Option String)) : (session.after scripts).LikeItself := by
  induction scripts generalizing session with
  | nil => exact h
  | cons script rest ih => exact ih (h.handle script.1 script.2)

/-- The statements that a script comes to find a state that is like itself. -/
theorem LikeItself.begins {session : Session} (h : session.LikeItself) {source : String}
    {name : Option String} {s : Stmt} {m : Machine} (begins : session.Begins source name s m) :
    ∃ ρ, Config.LikeItself ρ (.top session.setup s m) := by
  obtain ⟨ρ, like⟩ := h.ready
  obtain ⟨program, -, reached⟩ := begins
  obtain ⟨σ, -, like'⟩ := reached.follows (T := .self) (fun _ t => runTop_follows t.like_self) like
  exact ⟨σ, Config.likeItself_top like' s⟩

end Session

/-! ## What the states of a session have in common -/

/-- The scopes of a state are well founded, and what is referred to is there. -/
structure Machine.Grounded (m : Machine) : Prop where
  /-- From every scope a finite chain of ever older scopes leads to one that nothing encloses. -/
  chain : ∀ id, id < m.store.scopes.size → ∃ path root, m.store.Chain id path ∧
    path.Pairwise (· > ·) ∧ path.getLast? = some root ∧ (m.store.scope root).enclosing = none
  around : ∀ id outer, (m.store.scope id).enclosing = some outer → outer < id
  /-- A namespace is newer than the scope that has it, and nothing encloses it. -/
  space : ∀ id name target, (m.store.scope id).spaces.get? name = some target →
    id < target ∧ target < m.store.scopes.size ∧ (m.store.scope target).enclosing = none
  /-- The current scope is there, and so are the scopes of functions. -/
  scope : m.scope < m.store.scopes.size
  closure : ∀ id c, m.store.closure? id = some c → c.scope < m.store.scopes.size
  /-- Names, lists and maps refer to what is there, functions among it. -/
  whole : m.store.Whole
  /-- Walks outward ask all scopes of the chain in turn, up to the first that has an answer. -/
  walks : ∀ id path, m.store.Chain id path → ∀ name,
    m.store.owner? id name = path.find? (fun i => (m.store.scope i).bindings.contains name) ∧
    m.store.value? id name = path.findSome? (fun i => (m.store.scope i).bindings.get? name) ∧
    m.store.space? id name = path.findSome? (fun i => (m.store.scope i).spaces.get? name)
  /-- A qualified name leads to a root that is not on the chain, and is looked up there alone. -/
  qualified : ∀ id path, m.store.Chain id path → ∀ spaces, spaces ≠ [] →
    (∀ target, m.store.spaceOf id spaces = .ok target →
      target ∉ path ∧ (m.store.scope target).enclosing = none) ∧
    ∀ name v, m.store.qualifiedValue id spaces name = .ok v →
      ∃ target, target ∉ path ∧ (m.store.scope target).bindings.get? name.text = some v

theorem Machine.Placed.grounded {m : Machine} (h : m.Placed) (whole : m.store.Whole) : m.Grounded where
  chain id _ := by
    obtain ⟨path, chain⟩ := h.nested.chain id
    have some : path ≠ [] := List.ne_nil_of_mem chain.mem_self
    have last := List.getLast?_eq_some_getLast some
    exact ⟨path, path.getLast some, chain, chain.older h.nested, last,
      (chain.root_iff (List.getLast_mem some)).mpr last⟩
  around := h.nested.around
  space := h.nested.space
  scope := h.scope
  closure := h.nested.closure
  whole := whole
  walks _ _ chain name :=
    ⟨chain.owner? h.nested name, chain.value? h.nested name, chain.space? h.nested name⟩
  qualified id path chain spaces some := by
    refine ⟨fun target led => ?_, fun name v found => ?_⟩
    · obtain ⟨apart, -, root⟩ := h.nested.spaceOf_apart chain some led
      exact ⟨apart, root⟩
    · obtain ⟨target, apart, -, bound⟩ := h.nested.qualified_apart chain some found
      exact ⟨target, apart, bound⟩

namespace Session

/-- Scopes form a well-founded store. Between the scripts of a session, and at every evaluation that
a script comes to, when it starts and again when it ends, the scopes of the state are well founded
and everything is there that is referred to, by the state and by the values that the evaluation was
given. Once a scope is made it stays, and so does the scope around it: from the start of the script
to the evaluation, from there to its end, and on to the end of the script. So the scopes to which the
evaluations around one will return are still there. -/
theorem scopes_well_founded (setup : Setup) (host : Host) (scripts : List (String × Option String)) :
    ((Session.new setup host).after scripts).machine.Grounded ∧
    ∀ {source : String} {name : Option String} {s : Stmt} {m : Machine} {links : List Link} {c : Config},
      ((Session.new setup host).after scripts).Begins source name s m →
      Trail setup (.top setup s m) links c →
      c.machine.Grounded ∧ (c.finalState setup).Grounded ∧
      (∀ v ∈ c.task.values, c.machine.store.Has v) ∧
      ((Session.new setup host).after scripts).machine.store.Grown c.machine.store ∧
      c.machine.store.Grown (c.finalState setup).store ∧
      (c.finalState setup).store.Grown
        (((Session.new setup host).after scripts).handle source name).2.machine.store ∧
      ∀ {further : List Link} {c' : Config}, Trail setup c further c' →
        c.machine.store.Grown c'.machine.store ∧
        (c'.finalState setup).store.Grown (c.finalState setup).store ∧
        c.machine.scope < c'.machine.store.scopes.size := by
  have like : ((Session.new setup host).after scripts).LikeItself := (likeItself_new setup host).after scripts
  have placed := placed_after (placed_new setup host) scripts
  have same : ((Session.new setup host).after scripts).setup = setup :=
    (atRest_new setup host |>.after scripts).2
  refine ⟨?_, fun {source name s m links c} begins trail => ?_⟩
  · obtain ⟨ρ, like⟩ := like
    exact placed.grounded (like.store.whole rfl)
  obtain ⟨ρ, begun⟩ := like.begins begins
  obtain ⟨first, last⟩ := begins.within placed
  rw [same] at begun last
  -- what is matched with itself is there, so likeness gives that nothing refers to what is not
  obtain ⟨σ, -, here⟩ := trail.likeItself begun
  obtain ⟨τ, ended⟩ := here.finalState setup
  obtain ⟨starts, ends⟩ := trail.within first.placed
  have settles := settled setup c.depth c.task c.machine starts.placed
  refine ⟨starts.placed.grounded (here.1.store.whole rfl), settles.placed.grounded (ended.store.whole rfl),
    fun v member => here.1.store.has (here.2 v member), first.grown.trans starts.grown, settles.grown,
    (ends.trans last).grown, fun further => ?_⟩
  obtain ⟨starts', ends'⟩ := further.within starts.placed
  exact ⟨starts'.grown, ends'.grown, (starts'.grown.scope _ starts.placed.scope).1⟩

/-- Inside of a block at the top level the chain of the current scope is that scope and the one of the
globals. -/
theorem scopes_well_founded_block :
    ∃ s m links c, ((Session.new Setup.small Host.bare).after []).Begins "\x7b nil; \x7d" none s m ∧
      Trail Setup.small (.top Setup.small s m) links c ∧ c.machine.Grounded ∧
      c.machine.store.Chain c.machine.scope [1, globals] := by
  have read : Program.ofSource false none "\x7b nil; \x7d"
      = ([.block [.expression (.literal .nil)]], []) := by
    cbv
  have begins : ((Session.new Setup.small Host.bare).after []).Begins "\x7b nil; \x7d" none
      (.block [.expression (.literal .nil)]) (start Setup.small Host.bare) :=
    ⟨_, read, .first⟩
  have trail : Trail Setup.small (.top Setup.small (.block [.expression (.literal .nil)])
      (start Setup.small Host.bare)) [.inner] _ :=
    .step (.block rfl .first) .here
  obtain ⟨grounded, -⟩ := (scopes_well_founded Setup.small Host.bare []).2 begins trail
  exact ⟨_, _, _, _, begins, trail, grounded, .inside rfl (.root rfl)⟩

end Session

end ContractScript
