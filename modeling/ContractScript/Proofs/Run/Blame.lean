/-
Every fault is located, and notes the calls it left.

A fault starts somewhere in the tree of evaluations and travels up to whoever reports it.
Where it starts it may have a lexeme, but never calls; at the first call that it leaves
it gets what is missing, and from there on it is passed on as it is. So what a fault says
when it arrives can be read off the trail between the two ends: the calls on the trail,
behind those that were in progress before, and the lexeme of the construct that raised it
or the closing parenthesis of the innermost call.

Both directions are needed for this. An evaluation fails if one that it asks for fails
(all but the body of a test), and in no other way than this or by raising a fault itself.
To have one case for expressions they are brought into one form first: evaluate the
operands, then finish.
-/
import Mathlib
import ContractScript.Proofs.Run.Failing

set_option autoImplicit false

namespace ContractScript

open EvalM

/-! ## Expressions in one form -/

/-- What is left of an expression once its operands have been evaluated. -/
def Expr.finish (setup : Setup) (depth : Nat) : Expr → List Value → EvalM Value
  | .literal value, _ => return value.value
  | .group _, [v] => return v
  | .variable name, _ => lookup name
  | .qualified spaces name, _ => lookupQualified spaces name
  | .assign name _, [v] => do
    EvalM.assign name v
    return v
  | .unary op place _, [v] => op.apply place v
  | .binary op place _ _, [a, b] => op.apply depth place a b
  | .logical op _ _ right, [a] =>
    if op.needsRight a then evaluate setup depth right else return a
  | .choice _ whenTrue whenFalse, [a] =>
    evaluate setup depth (if a.isTruthy then whenTrue else whenFalse)
  | .call _ close _, f :: vs => callValue setup depth close f vs
  | .list _, vs => newList vs.toArray
  | .map pairs, _ => do
    let content ← entries depth (evaluate setup depth) .empty pairs
    return .map (← onStore fun s => s.newMap content)
  | .index _ bracket _, [c, k] => indexValue depth bracket c k
  | .slice _ bracket _ _, [c, low, high] => sliceValue bracket c low high
  | _, _ => return .nil

theorem evaluate_eq (setup : Setup) (depth : Nat) (e : Expr) :
    evaluate setup (depth + 1) e
      = values (evaluate setup depth) e.operands >>= e.finish setup depth := by
  cases e with
  | literal | «variable» | qualified | map => rfl
  | list items => rfl
  | group inner =>
    simp only [Expr.operands, values, bind_assoc, pure_bind, Expr.finish, bind_pure]
    rfl
  | assign | unary | binary | index | slice | call =>
    simp only [Expr.operands, values, bind_assoc, pure_bind, Expr.finish]
    rfl
  | logical op place left right =>
    simp only [Expr.operands, values, bind_assoc, pure_bind, Expr.finish, evaluate]
    refine bind_congr fun a => ?_
    cases op <;> cases truthy : a.isTruthy <;> simp [LogicalOp.needsRight, truthy]
  | choice condition whenTrue whenFalse =>
    simp only [Expr.operands, values, bind_assoc, pure_bind, Expr.finish, evaluate]
    refine bind_congr fun a => ?_
    split <;> rfl

theorem values_nil_ok {value : Expr → EvalM Value} {vs : List Value} {m m' : Machine}
    (ran : values value [] m = .ok vs m') : vs = [] ∧ m' = m := by
  cases ran
  exact ⟨rfl, rfl⟩

theorem values_cons_ok {value : Expr → EvalM Value} {e : Expr} {rest : List Expr} {vs : List Value}
    {m m' : Machine} (ran : values value (e :: rest) m = .ok vs m') :
    ∃ v ws m₁, vs = v :: ws ∧ value e m = .ok v m₁ ∧ values value rest m₁ = .ok ws m' := by
  rw [values] at ran
  obtain ⟨v, m₁, first, ran⟩ := bind_eq_ok ran
  obtain ⟨ws, m₂, others, ran⟩ := bind_eq_ok ran
  cases ran
  exact ⟨v, ws, m₁, rfl, first, others⟩

theorem values_cons {value : Expr → EvalM Value} {e : Expr} {rest : List Expr} {v : Value}
    {ws : List Value} {m m₁ m' : Machine} (first : value e m = .ok v m₁)
    (others : values value rest m₁ = .ok ws m') : values value (e :: rest) m = .ok (v :: ws) m' := by
  rw [values]
  exact (bind_ok first).trans (bind_ok others)

/-! ## Evaluations that fail -/

/-- An evaluation ends in a fault. -/
def Config.Fails (setup : Setup) (c : Config) (f : Fault) : Prop :=
  match c.task with
  | .evaluate e => EvalM.Fails (evaluate setup c.depth e) c.machine f
  | .call place g arguments => EvalM.Fails (callValue setup c.depth place g arguments) c.machine f
  | .invoke g arguments => EvalM.Fails (invoke setup c.depth g arguments) c.machine f
  | .execute s => EvalM.Fails (execute setup c.depth s) c.machine f
  | .load path place space => EvalM.Fails (importModule setup c.depth path place space) c.machine f

theorem Config.Fails.unique {setup : Setup} {c : Config} {f f' : Fault} (h : c.Fails setup f)
    (h' : c.Fails setup f') : f = f' := by
  obtain ⟨depth, task, m⟩ := c
  cases task <;> exact EvalM.Fails.unique h h'

/-- What a fault becomes on its way up through a link, given the state below the link. -/
def Link.carry (link : Link) (below : Machine) (f : Fault) : Fault :=
  match link with
  | .call frame => f.leaving (closeLexeme frame.place) below.frames
  | _ => f

namespace EvalM

variable {α β : Type} {m m₁ : Machine} {f : Fault}

theorem Fails.first {x : EvalM α} {g : α → EvalM β} (h : Fails x m f) : Fails (x >>= g) m f :=
  fails_bind.mpr (.inl h)

theorem Fails.behind {x : EvalM α} {g : α → EvalM β} {a : α} (ran : x m = .ok a m₁)
    (h : Fails (g a) m₁ f) : Fails (x >>= g) m f :=
  fails_bind.mpr (.inr ⟨a, m₁, ran, h⟩)

/-- A step that blames nothing does not fail. -/
theorem Blames.never {step : EvalM α} (h : Blames (fun _ _ => False) step) : ¬ Fails step m f :=
  fun failed => (h m f failed).2

end EvalM

/-- A call of a function fails as its precondition does. -/
theorem invoke_fails_before {setup : Setup} {depth : Nat} {id : FunctionId} {arguments : List Value}
    {c : Closure} {scope : ScopeId} {m m₁ m₂ : Machine} {f : Fault}
    (found : m.store.closure? id = some c) (made : newScope (some c.scope) m = .ok scope m₁)
    (bound : bind scope c.signature.parameters arguments m₁ = .ok () m₂)
    (failed : FailsInTurn (evaluate setup depth) (fun v => v.isTruthy = true)
      c.signature.before.conditions { m₂ with scope := scope } f) :
    EvalM.Fails (invoke setup (depth + 1) (.function id) arguments) m f := by
  rw [invoke]
  refine .behind (show (get : EvalM Machine) m = .ok m m from rfl) ?_
  dsimp only
  rw [found]
  exact .behind made (.behind bound (.first (fails_inScope.mpr (fails_allHold.mpr failed))))

/-- Behind its precondition a call of a function fails as what is left of it does. -/
theorem invoke_fails_behind {setup : Setup} {depth : Nat} {id : FunctionId} {arguments : List Value}
    {c : Closure} {scope : ScopeId} {m m₁ m₂ m₃ : Machine} {f : Fault}
    (found : m.store.closure? id = some c) (made : newScope (some c.scope) m = .ok scope m₁)
    (bound : bind scope c.signature.parameters arguments m₁ = .ok () m₂)
    (admitted : inScope scope (allHold (evaluate setup depth) c.signature.before.conditions) m₂
      = .ok true m₃)
    (failed : EvalM.Fails (do
      let signal ← inScope scope (sequence (execute setup depth) c.body)
      define scope "result" signal.result
      let after ← inScope scope (allHold (evaluate setup depth) c.signature.after.conditions)
      if !after then failHere (.postcondition c.signature.after.message)
      return signal.result) m₃ f) :
    EvalM.Fails (invoke setup (depth + 1) (.function id) arguments) m f := by
  rw [invoke]
  refine .behind (show (get : EvalM Machine) m = .ok m m from rfl) ?_
  dsimp only
  rw [found]
  refine .behind made (.behind bound (.behind admitted ?_))
  rw [if_neg (by decide)]
  exact failed

/-- A fault below a link arrives above it, unless a test is between. -/
theorem Asks.passes {setup : Setup} {c c' : Config} {link : Link} {f : Fault}
    (asks : Asks setup c link c') (caught : link ≠ .test) (failed : c'.Fails setup f) :
    c.Fails setup (link.carry c'.machine f) := by
  -- in front of the question everything has gone well, so the fault is the end of the whole
  cases asks with
  | operand reached =>
    show EvalM.Fails (evaluate setup _ _) _ f
    rw [evaluate_eq]
    exact .first (fails_values.mpr ⟨_, _, reached, failed⟩)
  | mapKey reached =>
    exact .first (fails_entries.mpr ⟨_, _, reached, .first failed⟩)
  | mapValue reached ran =>
    exact .first (fails_entries.mpr ⟨_, _, reached, .behind ran (.first failed)⟩)
  | right ran needed =>
    show EvalM.Fails (evaluate setup _ _) _ f
    rw [evaluate_eq]
    refine .behind (values_cons ran rfl) ?_
    rw [Expr.finish, if_pos needed]
    exact failed
  | chosen ran =>
    show EvalM.Fails (evaluate setup _ _) _ f
    rw [evaluate_eq]
    exact .behind (values_cons ran rfl) failed
  | call ran passed => exact .behind ran (.behind passed failed)
  | @dispatch depth place g arguments name m fits =>
    show EvalM.Fails (callValue setup _ _ _ _) _ _
    rw [callValue_succ]
    refine .behind (show (get : EvalM Machine) m = .ok m m from rfl) ?_
    dsimp only
    rw [fits]
    dsimp only
    rw [if_neg (by simp)]
    exact fails_inCall.mpr (.inl ⟨f, failed, rfl⟩)
  | before found made bound reached =>
    exact invoke_fails_before found made bound ⟨_, _, reached, failed⟩
  | body found made bound admitted reached =>
    exact invoke_fails_behind found made bound admitted
      (.first (fails_inScope.mpr (fails_sequence.mpr ⟨_, _, reached, failed⟩)))
  | after found made bound admitted ran noted reached =>
    exact invoke_fails_behind found made bound admitted (.behind ran (.behind noted
      (.first (fails_inScope.mpr (fails_allHold.mpr ⟨_, _, reached, failed⟩)))))
  | @value depth s e m starts =>
    cases s with
    | expression | print | branch =>
      cases starts
      exact .first failed
    | var name value | yield place value =>
      cases starts
      exact .first failed
    | _ => cases starts
  | clause reached => exact .first (fails_allHold.mpr ⟨_, _, reached, failed⟩)
  | @block depth body s scope m m₁ m' made reached =>
    exact .behind (show (get : EvalM Machine) m = .ok m m from rfl)
      (.behind made (fails_inScope.mpr (fails_sequence.mpr ⟨_, _, reached, failed⟩)))
  | @branch depth condition whenTrue s whenFalse a m m' ran chosen =>
    refine .behind ran ?_
    split at chosen
    · rename_i truthy
      cases chosen
      rw [if_pos truthy]
      exact failed
    · rename_i falsy
      subst chosen
      rw [if_neg falsy]
      exact failed
  | condition rounds => exact fails_iterate.mpr ⟨_, _, rounds, .inl (.first failed)⟩
  | round rounds holds => exact fails_iterate.mpr ⟨_, _, rounds, .inr ⟨_, holds, failed⟩⟩
  | test traced made => exact absurd rfl caught
  | load => exact .first failed
  | @declaration depth path place space source program target s m m₁ m₂ m₃ m₄ m₅ m' found traced read
      made entered reached =>
    show EvalM.Fails (importModule setup _ _ _ _) _ _
    rw [importModule_succ]
    refine .behind found (.behind traced (fails_inImport.mpr ?_))
    exact .behind read (.behind made (.behind entered
      (.first (fails_inScope.mpr (fails_sequence.mpr ⟨_, _, reached, failed⟩)))))

/-! ## Why an evaluation fails -/

/-- The lexemes that a fault of an expression itself can be located at. -/
def Expr.lexemes : Expr → List Lexeme
  | .variable name => [name]
  | .qualified spaces name => spaces ++ [name]
  | .assign name _ => [name]
  | .unary op place _ => [⟨op.symbol, place⟩]
  | .binary op place _ _ => [op.lexeme place]
  | .index _ bracket _ | .slice _ bracket _ _ => [bracketLexeme bracket]
  | _ => []

/-- Where a fault that an evaluation raises itself is located: at a lexeme of its own, and nowhere
yet if it is raised by a built-in function or by a contract of a function. -/
def Task.Blamed (lexeme : Option Lexeme) : Task → Prop
  | .evaluate e => ∃ l ∈ e.lexemes, lexeme = some l
  | .call place _ _ => lexeme = some (closeLexeme place)
  | .invoke _ _ => lexeme = none
  | .execute (.contract .assertion place _) => lexeme = some ⟨ContractKind.assertion.word, place⟩
  | .execute _ => False
  | .load path place _ => lexeme = some (pathLexeme path place)

/-- Whether a task is an import. -/
def Task.isLoad : Task → Bool
  | .load _ _ _ => true
  | _ => false

/-- What a fault that an evaluation raises itself says: it is located where it may be, and it is
about modules only if the evaluation is an import. -/
def Task.MayRaise (task : Task) (cause : Cause) (lexeme : Option Lexeme) : Prop :=
  task.Blamed lexeme ∧ (cause.ofImport = true → task.isLoad = true)

theorem Task.mayRaise {task : Task} {lexeme : Option Lexeme} (blamed : task.Blamed lexeme)
    (cause : Cause) (own : cause.ofImport = false) : task.MayRaise cause lexeme := by
  refine ⟨blamed, fun imports => ?_⟩
  rw [own] at imports
  cases imports

/-- The reasons why an evaluation fails: it raises a fault itself, a call runs out of levels, or
something that it asks for fails. -/
inductive Config.Explained (setup : Setup) (c : Config) (f : Fault) : Prop
  | raised (stack : f.stack = none) (may : c.task.MayRaise f.cause f.lexeme)
  | overflow {place : Place} {g : Value} {arguments : List Value} (cause : f.cause = .stackOverflow)
      (called : c.task = .call place g arguments) (located : f.lexeme = some (closeLexeme place))
  | asked {link : Link} {c' : Config} {f' : Fault} (asks : Asks setup c link c')
      (caught : link ≠ .test) (failed : c'.Fails setup f')

theorem Config.Explained.of_blames {setup : Setup} {c : Config} {f : Fault} {α : Type}
    {step : EvalM α} {m : Machine} (h : Blames c.task.MayRaise step)
    (failed : EvalM.Fails step m f) : c.Explained setup f :=
  .raised (h m f failed).1 (h m f failed).2

theorem evaluate_explained {setup : Setup} {depth : Nat} {e : Expr} {m : Machine} {f : Fault}
    (failed : EvalM.Fails (evaluate setup (depth + 1) e) m f) :
    Config.Explained setup ⟨depth + 1, .evaluate e, m⟩ f := by
  rw [evaluate_eq, fails_bind] at failed
  rcases failed with failed | ⟨vs, m₁, ran, failed⟩
  · obtain ⟨part, m₁, reached, failed⟩ := fails_values.mp failed
    exact .asked (.operand reached) Link.noConfusion failed
  -- with its operands there, the rest of a form asks for nothing, unless it is one of the last four
  have own : ∀ {α : Type} {step : EvalM α} {m' : Machine},
      Blames (Task.MayRaise (.evaluate e)) step → EvalM.Fails step m' f →
      Config.Explained setup ⟨depth + 1, .evaluate e, m⟩ f := fun blames h => .of_blames blames h
  cases e with
  | literal value => exact own (.pure _) failed
  | «variable» name => exact own (.lookup (Task.mayRaise ⟨name, List.mem_cons_self, rfl⟩)) failed
  | qualified spaces name => exact own (.lookupQualified fun l hl => Task.mayRaise ⟨l, hl, rfl⟩) failed
  | list items => exact own (.newList _) failed
  | group inner =>
    obtain ⟨v, ws, m₂, rfl, -, ran⟩ := values_cons_ok ran
    obtain ⟨rfl, -⟩ := values_nil_ok ran
    exact own (.pure _) failed
  | assign name value =>
    obtain ⟨v, ws, m₂, rfl, -, ran⟩ := values_cons_ok ran
    obtain ⟨rfl, -⟩ := values_nil_ok ran
    exact own (.bind (.assign (Task.mayRaise ⟨name, List.mem_cons_self, rfl⟩)) fun _ => .pure _) failed
  | unary op place operand =>
    obtain ⟨v, ws, m₂, rfl, -, ran⟩ := values_cons_ok ran
    obtain ⟨rfl, -⟩ := values_nil_ok ran
    exact own (.unaryOp v (Task.mayRaise ⟨_, List.mem_cons_self, rfl⟩)) failed
  | binary op place left right =>
    obtain ⟨a, ws, m₂, rfl, -, ran⟩ := values_cons_ok ran
    obtain ⟨b, ws, m₃, rfl, -, ran⟩ := values_cons_ok ran
    obtain ⟨rfl, -⟩ := values_nil_ok ran
    exact own (.binaryOp depth a b (Task.mayRaise ⟨_, List.mem_cons_self, rfl⟩)) failed
  | index collection bracket key =>
    obtain ⟨a, ws, m₂, rfl, -, ran⟩ := values_cons_ok ran
    obtain ⟨b, ws, m₃, rfl, -, ran⟩ := values_cons_ok ran
    obtain ⟨rfl, -⟩ := values_nil_ok ran
    have blamed : Task.Blamed (some (bracketLexeme bracket)) (.evaluate (.index collection bracket key)) :=
      ⟨_, List.mem_cons_self, rfl⟩
    exact own (.indexValue (Task.mayRaise blamed) depth a b) failed
  | slice collection bracket first last =>
    obtain ⟨a, ws, m₂, rfl, -, ran⟩ := values_cons_ok ran
    obtain ⟨b, ws, m₃, rfl, -, ran⟩ := values_cons_ok ran
    obtain ⟨c, ws, m₄, rfl, -, ran⟩ := values_cons_ok ran
    obtain ⟨rfl, -⟩ := values_nil_ok ran
    have blamed : Task.Blamed (some (bracketLexeme bracket))
        (.evaluate (.slice collection bracket first last)) := ⟨_, List.mem_cons_self, rfl⟩
    exact own (.sliceValue (Task.mayRaise blamed) a b c) failed
  | logical op place left right =>
    obtain ⟨a, ws, m₂, rfl, first, ran⟩ := values_cons_ok ran
    obtain ⟨rfl, rfl⟩ := values_nil_ok ran
    by_cases needed : op.needsRight a = true
    · rw [Expr.finish, if_pos needed] at failed
      exact .asked (.right first needed) Link.noConfusion failed
    · rw [Expr.finish, if_neg needed] at failed
      exact own (.pure _) failed
  | choice condition whenTrue whenFalse =>
    obtain ⟨a, ws, m₂, rfl, first, ran⟩ := values_cons_ok ran
    obtain ⟨rfl, rfl⟩ := values_nil_ok ran
    exact .asked (.chosen first) Link.noConfusion failed
  | call callee close arguments =>
    obtain ⟨g, ws, m₂, rfl, first, passed⟩ := values_cons_ok ran
    exact .asked (.call first passed) Link.noConfusion failed
  | map pairs =>
    obtain ⟨-, rfl⟩ := values_nil_ok ran
    rw [Expr.finish, fails_bind] at failed
    rcases failed with failed | ⟨content, m₂, -, failed⟩
    · obtain ⟨pair, m₂, reached, failed⟩ := fails_entries.mp failed
      rcases fails_bind.mp failed with failed | ⟨key, m₃, first, failed⟩
      · exact .asked (.mapKey reached) Link.noConfusion failed
      rcases fails_bind.mp failed with failed | ⟨item, m₄, -, failed⟩
      · exact .asked (.mapValue reached first) Link.noConfusion failed
      · exact own (.bind (.keyOf depth key) fun _ => .pure _) failed
    · exact own (.bind (.onStore _) fun _ => .pure _) failed

theorem callValue_explained {setup : Setup} {depth : Nat} {place : Place} {g : Value}
    {arguments : List Value} {m : Machine} {f : Fault}
    (failed : EvalM.Fails (callValue setup (depth + 1) place g arguments) m f) :
    Config.Explained setup ⟨depth + 1, .call place g arguments, m⟩ f := by
  rw [callValue_succ] at failed
  rcases fails_bind.mp failed with failed | ⟨_, _, got, failed⟩
  · exact absurd failed Blames.get.never
  cases got
  cases found : m.store.callable? g with
  | none =>
    rw [found] at failed
    exact .of_blames (.failAt (Task.mayRaise (by rfl) _ rfl)) failed
  | some known =>
    obtain ⟨name, arity⟩ := known
    rw [found] at failed
    dsimp only at failed
    by_cases wrong : (arguments.length != arity) = true
    · rw [if_pos wrong] at failed
      exact .of_blames (.failAt (Task.mayRaise (by rfl) _ rfl)) failed
    · rw [if_neg wrong] at failed
      have fits : arguments.length = arity := by simpa using wrong
      subst fits
      rcases fails_inCall.mp failed with ⟨f', inside, -⟩ | ⟨-, rfl⟩
      · exact .asked (.dispatch found) Link.noConfusion inside
      · exact .overflow rfl rfl rfl

theorem invoke_explained {setup : Setup} {depth : Nat} {g : Value} {arguments : List Value}
    {m : Machine} {f : Fault} (failed : EvalM.Fails (invoke setup (depth + 1) g arguments) m f) :
    Config.Explained setup ⟨depth + 1, .invoke g arguments, m⟩ f := by
  cases g with
  | native g =>
    have blames : Blames (Task.MayRaise (.invoke (.native g) arguments))
        (g.call setup depth arguments) := .native (Task.mayRaise (by rfl)) setup depth g arguments
    exact .of_blames blames failed
  | function id =>
    rw [invoke] at failed
    rcases fails_bind.mp failed with failed | ⟨_, _, got, failed⟩
    · exact absurd failed Blames.get.never
    cases got
    cases found : m.store.closure? id with
    | none =>
      rw [found] at failed
      exact .of_blames (.pure _) failed
    | some c =>
      rw [found] at failed
      dsimp only at failed
      -- step by step: what is only set up never fails, what is asked for may, and a contract raises
      rcases fails_bind.mp failed with failed | ⟨scope, m₁, made, failed⟩
      · exact absurd failed (Blames.onStore _).never
      rcases fails_bind.mp failed with failed | ⟨_, m₂, bound, failed⟩
      · exact absurd failed (Blames.bindArguments _ _ _).never
      rcases fails_bind.mp failed with failed | ⟨before, m₃, admitted, failed⟩
      · obtain ⟨e, m₄, reached, failed⟩ := fails_allHold.mp (fails_inScope.mp failed)
        exact .asked (.before found made bound reached) Link.noConfusion failed
      rcases fails_orFail.mp failed with ⟨-, rfl⟩ | ⟨held, failed⟩
      · exact .raised rfl (Task.mayRaise (by rfl) _ rfl)
      rw [Bool.not_eq_false'] at held
      subst held
      rcases fails_bind.mp failed with failed | ⟨signal, m₄, ran, failed⟩
      · obtain ⟨s, m₅, reached, failed⟩ := fails_sequence.mp (fails_inScope.mp failed)
        exact .asked (.body found made bound admitted reached) Link.noConfusion failed
      rcases fails_bind.mp failed with failed | ⟨_, m₅, noted, failed⟩
      · exact absurd failed (Blames.modify _).never
      rcases fails_bind.mp failed with failed | ⟨after, m₆, -, failed⟩
      · obtain ⟨e, m₇, reached, failed⟩ := fails_allHold.mp (fails_inScope.mp failed)
        exact .asked (.after found made bound admitted ran noted reached) Link.noConfusion failed
      rcases fails_orFail.mp failed with ⟨-, rfl⟩ | ⟨-, failed⟩
      · exact .raised rfl (Task.mayRaise (by rfl) _ rfl)
      · exact absurd failed (Blames.pure _).never
  | _ => exact .of_blames (.pure _) failed

/-- A statement that starts with an expression and then does nothing that fails. -/
theorem execute_value_explained {setup : Setup} {depth : Nat} {s : Stmt} {e : Expr} {m : Machine}
    {f : Fault} {rest : Value → EvalM Signal} (starts : s.value? = some e)
    (silent : ∀ v, Blames (fun _ _ => False) (rest v))
    (failed : EvalM.Fails (evaluate setup depth e >>= rest) m f) :
    Config.Explained setup ⟨depth + 1, .execute s, m⟩ f := by
  rcases fails_bind.mp failed with failed | ⟨v, m₁, -, failed⟩
  · exact .asked (.value starts) Link.noConfusion failed
  · exact absurd failed (silent v).never

theorem execute_explained {setup : Setup} {depth : Nat} {s : Stmt} {m : Machine} {f : Fault}
    (failed : EvalM.Fails (execute setup (depth + 1) s) m f) :
    Config.Explained setup ⟨depth + 1, .execute s, m⟩ f := by
  cases s with
  | expression value => exact execute_value_explained rfl (fun _ => .pure _) failed
  | print value =>
    exact execute_value_explained rfl
      (fun _ => .bind (.shown depth _) fun _ => .bind (.note _) fun _ => .pure _) failed
  | var name value =>
    cases value with
    | none =>
      have silent : Blames (fun _ _ => False) (execute setup (depth + 1) (.var name none)) :=
        .bind (.pure _) fun _ => .bind (.modify _) fun _ => .pure _
      exact absurd failed silent.never
    | some e =>
      exact execute_value_explained rfl (fun _ => .bind (.modify _) fun _ => .pure _) failed
  | yield place value =>
    cases value with
    | none =>
      have silent : Blames (fun _ _ => False) (execute setup (depth + 1) (.yield place none)) :=
        .pure _
      exact absurd failed silent.never
    | some e => exact execute_value_explained rfl (fun _ => .pure _) failed
  | leave place =>
    have silent : Blames (fun _ _ => False) (execute setup (depth + 1) (.leave place)) := .pure _
    exact absurd failed silent.never
  | function signature body =>
    have silent : Blames (fun _ _ => False) (execute setup (depth + 1) (.function signature body)) :=
      .bind .get fun _ => .bind (.onStore _) fun _ => .bind (.modify _) fun _ => .pure _
    exact absurd failed silent.never
  | test name place body =>
    -- whatever happens in the body, its faults are caught
    have silent : Blames (fun _ _ => False) (execute setup (depth + 1) (.test name place body)) :=
      .bind (.trace setup _) fun _ => .bind .get fun _ => .bind (.onStore _) fun _ =>
        .bind (.asTest _ _ _) fun _ => .pure _
    exact absurd failed silent.never
  | block body =>
    rw [execute] at failed
    rcases fails_bind.mp failed with failed | ⟨_, _, got, failed⟩
    · exact absurd failed Blames.get.never
    cases got
    rcases fails_bind.mp failed with failed | ⟨scope, m₁, made, failed⟩
    · exact absurd failed (Blames.onStore _).never
    obtain ⟨s, m₂, reached, failed⟩ := fails_sequence.mp (fails_inScope.mp failed)
    exact .asked (.block made reached) Link.noConfusion failed
  | branch condition whenTrue whenFalse =>
    rcases fails_bind.mp failed with failed | ⟨a, m₁, ran, failed⟩
    · exact .asked (.value rfl) Link.noConfusion failed
    by_cases truthy : a.isTruthy = true
    · rw [if_pos truthy] at failed
      exact .asked (.branch ran (if_pos truthy)) Link.noConfusion failed
    · rw [if_neg truthy] at failed
      cases whenFalse with
      | none => exact absurd failed (Blames.pure _).never
      | some other => exact .asked (.branch ran (if_neg truthy)) Link.noConfusion failed
  | loop condition body =>
    obtain ⟨left, m₁, rounds, failed | ⟨m₂, held, failed⟩⟩ := fails_iterate.mp failed
    · rcases fails_bind.mp failed with failed | ⟨v, m₂, -, failed⟩
      · exact .asked (.condition rounds) Link.noConfusion failed
      · exact absurd failed (Blames.pure _).never
    · exact .asked (.round rounds held) Link.noConfusion failed
  | contract kind place clauses =>
    rcases fails_bind.mp failed with failed | ⟨holds, m₁, -, failed⟩
    · obtain ⟨e, m₁, reached, failed⟩ := fails_allHold.mp failed
      exact .asked (.clause reached) Link.noConfusion failed
    cases holds with
    | true => exact absurd failed (Blames.pure _).never
    | false =>
      cases kind with
      | assertion => exact .of_blames (.failAt (Task.mayRaise (by rfl) _ rfl)) failed
      | check =>
        rw [if_neg Bool.false_ne_true] at failed
        have silent : ∀ text, Blames (fun _ _ => False) (emit .error text >>= fun _ => pure Signal.next) :=
          fun text => .bind (.note _) fun _ => .pure _
        exact absurd failed (silent _).never
  | load path place space =>
    rcases fails_bind.mp failed with failed | ⟨_, m₁, -, failed⟩
    · exact .asked .load Link.noConfusion failed
    · exact absurd failed (Blames.pure _).never

theorem importModule_explained {setup : Setup} {depth : Nat} {path : String} {place : Place}
    {space : Option Lexeme} {m : Machine} {f : Fault}
    (failed : EvalM.Fails (importModule setup (depth + 1) path place space) m f) :
    Config.Explained setup ⟨depth + 1, .load path place space, m⟩ f := by
  rw [importModule_succ] at failed
  rcases fails_bind.mp failed with failed | ⟨source, m₁, found, failed⟩
  · exact .of_blames (.findModule setup path fun _ => ⟨rfl, fun _ => rfl⟩) failed
  rcases fails_bind.mp failed with failed | ⟨_, m₂, traced, failed⟩
  · exact absurd failed (Blames.trace setup _).never
  rcases fails_bind.mp (fails_inImport.mp failed) with failed | ⟨program, m₃, read, failed⟩
  · exact .of_blames (.moduleDeclarations path source fun _ => ⟨rfl, fun _ => rfl⟩) failed
  rcases fails_bind.mp failed with failed | ⟨target, m₄, made, failed⟩
  · exact absurd failed (Blames.importTarget setup _).never
  rcases fails_bind.mp failed with failed | ⟨_, m₅, entered, failed⟩
  · exact absurd failed (Blames.enterDirectory _).never
  rcases fails_bind.mp failed with failed | ⟨_, m₆, -, failed⟩
  · obtain ⟨s, m₆, reached, failed⟩ := fails_sequence.mp (fails_inScope.mp failed)
    exact .asked (.declaration found traced read made entered reached) Link.noConfusion failed
  · exact absurd failed (Blames.pure _).never

/-- An evaluation fails for no other reasons. -/
theorem Config.Fails.explained {setup : Setup} {c : Config} {f : Fault} (failed : c.Fails setup f) :
    c.Explained setup f := by
  obtain ⟨depth, task, m⟩ := c
  cases depth with
  | zero =>
    -- without levels there is a defect, not a fault
    have silent : ∀ {α : Type}, ¬ EvalM.Fails (throw (.defect .tooDeep) : EvalM α) m f :=
      (Blames.defect _).never
    cases task <;> exact absurd failed silent
  | succ depth =>
    cases task with
    | evaluate e => exact evaluate_explained failed
    | call place g arguments => exact callValue_explained failed
    | invoke g arguments => exact invoke_explained failed
    | execute s => exact execute_explained failed
    | load path place space => exact importModule_explained failed

/-! ## Where a fault starts -/

/-- An evaluation raises its fault itself: nothing that it asks for fails, but for the bodies of
tests. -/
def Config.Raises (setup : Setup) (p : Config) : Prop :=
  (∃ f, p.Fails setup f) ∧
    ∀ link c' f, Asks setup p link c' → link ≠ .test → ¬ c'.Fails setup f

theorem Asks.depth {setup : Setup} {c c' : Config} {link : Link} (asks : Asks setup c link c') :
    c.depth = c'.depth + 1 := by
  cases asks <;> rfl

/-- Every fault starts at the end of a trail without tests. -/
theorem Config.Fails.origin {setup : Setup} : ∀ {depth : Nat} {c : Config} {f : Fault},
    c.depth = depth → c.Fails setup f →
      ∃ links p, Trail setup c links p ∧ (∀ link ∈ links, link ≠ .test) ∧ p.Raises setup := by
  intro depth
  induction depth with
  | zero =>
    intro c f levels failed
    refine ⟨[], c, .here, fun _ h => absurd h List.not_mem_nil, ⟨f, failed⟩, ?_⟩
    intro link c' f' asks
    have fewer := asks.depth
    omega
  | succ depth ih =>
    intro c f levels failed
    by_cases asked : ∃ link c' f', Asks setup c link c' ∧ link ≠ .test ∧ c'.Fails setup f'
    · obtain ⟨link, c', f', asks, caught, below⟩ := asked
      have fewer := asks.depth
      obtain ⟨links, p, trail, uncaught, raises⟩ := ih (by omega) below
      exact ⟨link :: links, p, .step asks trail, List.forall_mem_cons.mpr ⟨caught, uncaught⟩, raises⟩
    · refine ⟨[], c, .here, fun _ h => absurd h List.not_mem_nil, ⟨f, failed⟩, ?_⟩
      intro link c' f' asks caught below
      exact asked ⟨link, c', f', asks, caught, below⟩

/-! ## What a fault says when it arrives -/

/-- The calls that the links of a trail begin, outermost first. -/
def Link.calls (links : List Link) : List Frame :=
  links.filterMap Link.frame?

/-- The closing parenthesis of the innermost call of a trail. -/
def Link.closing? (links : List Link) : Option Lexeme :=
  (Link.calls links).getLast?.map fun frame => closeLexeme frame.place

/-- The calls that a fault notes: those in progress before and those of the trail, outermost first;
nothing if the trail has no call. -/
def Link.chain? (before : List Frame) (links : List Link) : Option (List Frame) :=
  if Link.calls links = [] then none else some (before.reverse ++ Link.calls links)

theorem Link.closing?_call (frame : Frame) (links : List Link) :
    Link.closing? (.call frame :: links)
      = (Link.closing? links <|> some (closeLexeme frame.place)) := by
  have calls : Link.calls (.call frame :: links) = frame :: Link.calls links := rfl
  unfold Link.closing?
  rw [calls]
  cases Link.calls links with
  | nil => rfl
  | cons first others =>
    rw [List.getLast?_cons_cons, List.getLast?_eq_some_getLast (List.cons_ne_nil first others)]
    rfl

theorem Link.chain?_call (before : List Frame) (frame : Frame) (links : List Link) :
    Link.chain? before (.call frame :: links)
      = (Link.chain? (frame :: before) links <|> some (frame :: before).reverse) := by
  have calls : Link.calls (.call frame :: links) = frame :: Link.calls links := rfl
  unfold Link.chain?
  rw [calls, if_neg (List.cons_ne_nil _ _), List.reverse_cons]
  by_cases none : Link.calls links = []
  · rw [if_pos none, none]
    rfl
  · rw [if_neg none, List.append_assoc]
    rfl

/-- A fault arrives with what it had, and with what the calls of the trail add. -/
theorem Trail.carries {setup : Setup} {c p : Config} {links : List Link} {f : Fault}
    (trail : Trail setup c links p) (uncaught : ∀ link ∈ links, link ≠ .test)
    (failed : p.Fails setup f) : c.Fails setup ⟨f.cause, f.lexeme <|> Link.closing? links,
      f.stack <|> Link.chain? c.machine.frames links⟩ := by
  induction trail with
  | here =>
    have same : (⟨f.cause, f.lexeme <|> none, f.stack <|> none⟩ : Fault) = f := by simp
    rw [← same] at failed
    exact failed
  | @step c c₁ p link links asks _ ih =>
    rw [List.forall_mem_cons] at uncaught
    have arrives := asks.passes uncaught.1 (ih uncaught.2 failed)
    have frames := congrArg Prod.fst asks.progress
    simp only [Machine.progress] at frames
    cases link with
    | call frame =>
      -- the first call that the fault leaves fills in what is missing, the others find it there
      have begun : c₁.machine.frames = frame :: c.machine.frames := frames
      rw [begun] at arrives
      simp only [Link.carry, Fault.leaving, begun] at arrives
      rw [Link.closing?_call, Link.chain?_call]
      simpa only [Option.orElse_eq_orElse, Option.orElse_eq_or, Option.or_assoc] using arrives
    | _ =>
      have same : c₁.machine.frames = c.machine.frames := frames
      rw [same] at arrives
      exact arrives

/-- Calls are the only way to what is done behind a frame. -/
theorem Trail.closing_ne_none {setup : Setup} {c p : Config} {links : List Link} {g : Value}
    {arguments : List Value} (trail : Trail setup c links p)
    (outside : ∀ g arguments, c.task ≠ .invoke g arguments) (task : p.task = .invoke g arguments) :
    Link.closing? links ≠ none := by
  refine trail.along (P := fun links c => ∀ g arguments, c.task = .invoke g arguments →
    Link.closing? links ≠ none) (fun g arguments h => absurd h (outside g arguments)) ?_ g arguments task
  intro links c link c' _ _ asks g arguments task
  have called : ∃ frame, link = .call frame := by
    cases asks <;> cases task
    exact ⟨_, rfl⟩
  obtain ⟨frame, rfl⟩ := called
  unfold Link.closing? Link.calls
  simp [Link.frame?]

/-- A fault that does not come from behind a frame has a lexeme from the start. -/
theorem Task.Blamed.isSome {task : Task} {lexeme : Option Lexeme} (blamed : task.Blamed lexeme)
    (outside : ∀ g arguments, task ≠ .invoke g arguments) : ∃ l, lexeme = some l := by
  cases task with
  | evaluate e =>
    obtain ⟨l, -, found⟩ := blamed
    exact ⟨l, found⟩
  | call place g arguments => exact ⟨_, blamed⟩
  | invoke g arguments => exact absurd rfl (outside g arguments)
  | execute s =>
    cases s with
    | contract kind place clauses =>
      cases kind with
      | assertion => exact ⟨_, blamed⟩
      | check => exact blamed.elim
    | _ => exact blamed.elim
  | load path place space => exact ⟨_, blamed⟩

/-- A fault, read off a trail from where it arrives to where it is raised. -/
theorem Config.Fails.arrival {setup : Setup} {c p : Config} {links : List Link} {f : Fault}
    (failed : c.Fails setup f) (trail : Trail setup c links p)
    (uncaught : ∀ link ∈ links, link ≠ .test) (raises : p.Raises setup) :
    ∃ raised : Fault, f = ⟨raised.cause, raised.lexeme <|> Link.closing? links,
        raised.stack <|> Link.chain? c.machine.frames links⟩ ∧
      ((raised.stack = none ∧ p.task.Blamed raised.lexeme) ∨
        (raised.cause = .stackOverflow ∧ raised.lexeme ≠ none)) := by
  obtain ⟨⟨raised, start⟩, own⟩ := raises
  refine ⟨raised, failed.unique (trail.carries uncaught start), ?_⟩
  cases start.explained with
  | raised stack may => exact .inl ⟨stack, may.1⟩
  | overflow cause _ located => exact .inr ⟨cause, by simp [located]⟩
  | asked asks caught below => exact absurd below (own _ _ _ asks caught)

/-- Outside of what is done behind a frame, a fault has a lexeme when it arrives. -/
theorem Config.Fails.located {setup : Setup} {c : Config} {f : Fault} (failed : c.Fails setup f)
    (outside : ∀ g arguments, c.task ≠ .invoke g arguments) : f.lexeme ≠ none := by
  obtain ⟨links, p, trail, uncaught, raises⟩ := failed.origin rfl
  obtain ⟨raised, rfl, ⟨-, blamed⟩ | ⟨-, located⟩⟩ := failed.arrival trail uncaught raises
  · by_cases behind : ∃ g arguments, p.task = .invoke g arguments
    · obtain ⟨g, arguments, task⟩ := behind
      rw [task] at blamed
      have missing : raised.lexeme = none := blamed
      simp only [missing]
      exact trail.closing_ne_none outside task
    · have own : ∀ g arguments, p.task ≠ .invoke g arguments :=
        fun g arguments task => behind ⟨g, arguments, task⟩
      obtain ⟨l, found⟩ := blamed.isSome own
      simp [found]
  · obtain ⟨l, found⟩ := Option.ne_none_iff_exists'.mp located
    simp [found]

/-! ## Reports of a session -/

/-- At the top level a statement fails as its evaluation does. -/
theorem runTop_fails {setup : Setup} {s : Stmt} {m : Machine} {f : Fault}
    (failed : EvalM.Fails (runTop setup s) m f) : (Config.top setup s m).Fails setup f := by
  cases s with
  | expression e =>
    rcases fails_bind.mp failed with failed | ⟨v, m₁, -, failed⟩
    · exact failed
    · have silent : Blames (fun _ _ => False) (if setup.settings.repl = true then (do
          emit .error (← shown setup.limits.depth v)
          return v) else pure v) := by
        split
        · exact .bind (.shown _ _) fun _ => .bind (.note _) fun _ => .pure _
        · exact .pure _
      exact absurd failed silent.never
  | _ =>
    rcases fails_bind.mp failed with failed | ⟨v, m₁, -, failed⟩
    · exact failed
    · exact absurd failed (Blames.pure _).never

/-- A program fails as one of its statements does. -/
theorem runAll_fails {setup : Setup} {program : Program} {f : Fault} :
    ∀ {last : Value} {m : Machine}, EvalM.Fails (runAll setup last program) m f →
      ∃ s m', InTurn (runTop setup) (fun _ => True) program m s m' ∧
        (Config.top setup s m').Fails setup f := by
  induction program with
  | nil => exact fun failed => absurd failed (Blames.pure _).never
  | cons s rest ih =>
    intro last m failed
    rw [runAll] at failed
    rcases fails_bind.mp failed with failed | ⟨v, m₁, ran, failed⟩
    · exact ⟨s, m, .first, runTop_fails failed⟩
    · obtain ⟨s', m', reached, failed⟩ := ih failed
      exact ⟨s', m', .later ran trivial reached, failed⟩

theorem reportTests_blames {post : Cause → Option Lexeme → Prop} (setup : Setup) :
    Blames post (reportTests setup) := by
  refine .bind .get fun m => ?_
  dsimp only
  split
  · exact .pure _
  · exact .bind (.note _) fun _ => .modify _

theorem interpret_blames {setup : Setup} {describe : Fault → String} {program : Program}
    {post : Cause → Option Lexeme → Prop} : Blames post (interpret setup describe program) := by
  refine .bind (.catchFault _) fun result => ?_
  cases result with
  | ok v => exact .bind (reportTests_blames setup) fun _ => .pure _
  | error f =>
    exact .bind (.trace setup _) fun _ => .bind (.note _) fun _ => .bind (reportTests_blames setup) fun _ =>
      .pure _

/-- A fault that ends a program is the program's own. -/
theorem interpret_fails {setup : Setup} {describe : Fault → String} {program : Program}
    {m m' : Machine} {f : Fault} (ran : interpret setup describe program m = .ok (.error f) m') :
    EvalM.Fails (runAll setup .nil program) m f := by
  obtain ⟨result, m₁, caught, next⟩ := bind_eq_ok ran
  cases result with
  | ok v =>
    obtain ⟨_, _, _, next⟩ := bind_eq_ok next
    cases next
  | error f' =>
    obtain ⟨_, _, _, next⟩ := bind_eq_ok next
    obtain ⟨_, _, _, next⟩ := bind_eq_ok next
    obtain ⟨_, _, _, next⟩ := bind_eq_ok next
    cases next
    unfold catchFault at caught
    cases run : runAll setup .nil program m with
    | ok v m₂ =>
      rw [run] at caught
      cases caught
    | error e m₂ =>
      rw [run] at caught
      cases e with
      | fault f' =>
        cases caught
        exact ⟨m₁, run⟩
      | defect d => cases caught
      | unfinished => cases caught

/-- A fault that ends a script is described as a fault of the script, and is one that the evaluation
of one of its statements ends in. -/
theorem Session.handle_fails {session : Session} {source : String} {name : Option String}
    {f : Fault} {report : String} (ended : (session.handle source name).1 = .fault f report) :
    report = Report.ofFault ⟨source, name <|> session.file⟩ f ∧
      ∃ s m, session.Begins source name s m ∧
        (Config.top session.setup s m).Fails session.setup f := by
  unfold Session.handle at ended
  dsimp only at ended
  cases read : Program.ofSource session.setup.settings.testMode (name <|> session.file) source with
  | mk program diagnostics =>
    rw [read] at ended
    split at ended
    · rename_i quiet
      cases List.isEmpty_iff.mp quiet
      unfold Session.runProgram at ended
      dsimp only at ended
      split at ended
      · cases ended
      · rename_i run
        cases ended
        obtain ⟨s, m, reached, failed⟩ := runAll_fails (interpret_fails run)
        exact ⟨rfl, s, m, ⟨program, read, reached⟩, failed⟩
      · cases ended
      · cases ended
      · rename_i run
        -- the faults of a program have been caught where they are reported
        exact absurd ⟨_, run⟩ interpret_blames.never
      · cases ended
    · cases ended

theorem Session.handle_located {session : Session} {source : String} {name : Option String}
    {f : Fault} {report : String} (ended : (session.handle source name).1 = .fault f report) :
    f.lexeme ≠ none := by
  obtain ⟨-, s, m, -, failed⟩ := Session.handle_fails ended
  have outside : ∀ g arguments, (Config.top session.setup s m).task ≠ .invoke g arguments := by
    intro g arguments
    cases s <;> exact Task.noConfusion
  exact failed.located outside

/-- Every fault is located and notes the exact chain of calls. An expression or statement that ends
in a fault has a trail, past no test, to where the fault was raised. Unless it is for want of
levels, the fault notes no calls if there is none on the trail, and otherwise the calls that were in
progress before and then those of the trail, outermost first. Its lexeme is one of the construct
that raised it; what is done behind a frame, that is by built-in functions and by the contracts of
functions, has it from the closing parenthesis of the innermost call. Whatever a session reports as
a fault has a place. -/
theorem faults_located (setup : Setup) :
    (∀ c f, ((∃ e, c.task = .evaluate e) ∨ ∃ s, c.task = .execute s) → c.Fails setup f →
      f.lexeme ≠ none ∧
      (∃ links p, Trail setup c links p ∧ (∀ link ∈ links, link ≠ .test) ∧ p.Raises setup) ∧
      (f.cause ≠ .stackOverflow → ∀ links p, Trail setup c links p →
        (∀ link ∈ links, link ≠ .test) → p.Raises setup →
          f.stack = Link.chain? c.machine.frames links ∧
          (∀ g arguments, p.task = .invoke g arguments → f.lexeme = Link.closing? links) ∧
          ((∀ g arguments, p.task ≠ .invoke g arguments) → p.task.Blamed f.lexeme))) ∧
    ∀ (session : Session) (source : String) (name : Option String) (f : Fault) (report : String),
      (session.handle source name).1 = .fault f report →
        (session.handle source name).1.place? ≠ none := by
  refine ⟨fun c f code failed => ?_, fun session source name f report ended => ?_⟩
  -- only a call of a function leaves it to the one around it to say where
  · have outside : ∀ g arguments, c.task ≠ .invoke g arguments := by
      rcases code with ⟨e, task⟩ | ⟨s, task⟩ <;> simp [task]
    refine ⟨failed.located outside, failed.origin rfl, ?_⟩
    intro cause links p trail uncaught raises
    obtain ⟨raised, rfl, ⟨stack, blamed⟩ | ⟨overflow, -⟩⟩ := failed.arrival trail uncaught raises
    · refine ⟨by simp [stack], fun g arguments task => ?_, fun own => ?_⟩
      · rw [task] at blamed
        have missing : raised.lexeme = none := blamed
        simp [missing]
      · obtain ⟨l, found⟩ := blamed.isSome own
        rw [found] at blamed
        simpa [found] using blamed
    · exact absurd overflow cause
  · have located := Session.handle_located ended
    rw [ended]
    simpa [Outcome.place?] using located

/-- A call of a built-in function that does not take what it is given. -/
def lenOfNil : Expr :=
  .call (.variable ⟨"len", ⟨none, 1⟩⟩) ⟨none, 2⟩ [.literal .nil]

/-- A new run, as if it were inside a call. -/
def Machine.inCall : Machine :=
  { Session.start (Session.standard {}) Host.bare with frames := [⟨"outer", ⟨none, 7⟩⟩] }

/-- The fault of the built-in function notes both calls and is located at the parenthesis of the
inner one; and a session that runs a false assertion reports where it is. -/
theorem faults_located_lenOfNil :
    (∃ f, Config.Fails (Session.standard {}) ⟨9, .evaluate lenOfNil, Machine.inCall⟩ f ∧
      f.stack = some [⟨"outer", ⟨none, 7⟩⟩, ⟨"len", ⟨none, 2⟩⟩] ∧
      f.lexeme = some ⟨")", ⟨none, 2⟩⟩) ∧
    ((Session.new (Session.standard {}) Host.bare).handle "assertion: false;" none).1.place?
      ≠ none := by
  let setup := Session.standard {}
  have found : Machine.inCall.store.value? Machine.inCall.scope "len" = some (.native .len) := by
    rw [Store.value?, Store.findOutward]
    rfl
  have looked : evaluate setup 8 (.variable ⟨"len", ⟨none, 1⟩⟩) Machine.inCall
      = .ok (.native .len) Machine.inCall := by
    rw [evaluate, lookup, bind_ok (show (get : EvalM Machine) _ = .ok _ _ from rfl), found]
    rfl
  have trail : Trail setup ⟨9, .evaluate lenOfNil, Machine.inCall⟩
      [.part, .call ⟨"len", ⟨none, 2⟩⟩]
      ⟨7, .invoke (.native .len) [.nil], { Machine.inCall with frames := _ }⟩ :=
    .step (.call looked rfl) (.step (.dispatch rfl) .here)
  have uncaught : ∀ link ∈ [Link.part, .call ⟨"len", ⟨none, 2⟩⟩], link ≠ .test := by simp
  have rejected : Config.Fails setup ⟨7, .invoke (.native .len) [.nil], _⟩
      ⟨.unexpected .collection "nil", none, none⟩ :=
    ⟨{ Machine.inCall with frames := [⟨"len", ⟨none, 2⟩⟩, ⟨"outer", ⟨none, 7⟩⟩] }, rfl⟩
  -- a built-in function asks for nothing, so the fault begins there
  have raises : Config.Raises setup ⟨7, .invoke (.native .len) [.nil], _⟩ :=
    ⟨⟨_, rejected⟩, fun link c' f asks => by cases asks⟩
  have failed := trail.carries uncaught rejected
  obtain ⟨evaluations, reports⟩ := faults_located setup
  refine ⟨?_, ?_⟩
  · obtain ⟨-, -, exact⟩ := evaluations _ _ (.inl ⟨_, rfl⟩) failed
    obtain ⟨stack, lexeme, -⟩ := exact Cause.noConfusion _ _ trail uncaught raises
    exact ⟨_, failed, stack, lexeme _ _ rfl⟩
  · have read : Program.ofSource false none "assertion: false;"
        = ([.contract .assertion ⟨none, 1⟩ ⟨[.literal (.bool false)], none⟩], []) := by
      cbv
    have script : Program.ofSource (Session.new setup Host.bare).setup.settings.testMode
        (none <|> (Session.new setup Host.bare).file) "assertion: false;"
        = ([.contract .assertion ⟨none, 1⟩ ⟨[.literal (.bool false)], none⟩], []) := read
    have ended : ∃ f report,
        ((Session.new setup Host.bare).handle "assertion: false;" none).1 = .fault f report := by
      unfold Session.handle
      dsimp only
      rw [script]
      exact ⟨_, _, rfl⟩
    obtain ⟨f, report, ended⟩ := ended
    exact reports _ _ _ f report ended

end ContractScript
