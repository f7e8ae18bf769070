/-
Programs without their tests.

Outside test mode a test is parsed like any other declaration and then left out.
Nothing else depends on the mode: the two parses go through the same states, report
the same, and end with programs of which one is the other without its tests. This
is shown for two productions at a time. They mirror each other if from every state
they end in the same state, either both giving up for the same reason or with
results that are related.

What is left out takes nothing away that was needed: a program that keeps to the
limits still does so without its tests.
-/
import ContractScript.Proofs.Program.Soundness

set_option autoImplicit false

namespace ContractScript

/-! ## Leaving tests out -/

/-- Whether a statement is a test. -/
def Stmt.isTest : Stmt → Bool
  | .test .. => true
  | _ => false

mutual

/-- A statement without the tests inside it. A test that is not in a list leaves an empty block
behind. -/
def Stmt.withoutTests : Stmt → Stmt
  | .block body => .block (Stmt.dropTests body)
  | .branch condition whenTrue whenFalse =>
    .branch condition whenTrue.withoutTests (Stmt.optionWithoutTests whenFalse)
  | .loop condition body => .loop condition body.withoutTests
  | .function signature body => .function signature (Stmt.dropTests body)
  | .test _ _ _ => .block []
  | .expression value => .expression value
  | .print value => .print value
  | .var name value => .var name value
  | .leave place => .leave place
  | .yield place value => .yield place value
  | .contract kind place clauses => .contract kind place clauses
  | .load path place space => .load path place space

/-- The statements of a list that are no tests, each without the tests inside it. -/
def Stmt.dropTests : List Stmt → List Stmt
  | [] => []
  | s :: rest =>
    if s.isTest then Stmt.dropTests rest else s.withoutTests :: Stmt.dropTests rest

/-- A statement that may be missing, without the tests inside it. -/
def Stmt.optionWithoutTests : Option Stmt → Option Stmt
  | none => none
  | some s => some s.withoutTests

end

mutual

/-- No test anywhere, not even in the body of a function. -/
def Stmt.TestFree : Stmt → Prop
  | .block body => Stmt.AllTestFree body
  | .branch _ whenTrue whenFalse => whenTrue.TestFree ∧ Stmt.OptionTestFree whenFalse
  | .loop _ body => body.TestFree
  | .function _ body => Stmt.AllTestFree body
  | .test _ _ _ => False
  | .expression _ => True
  | .print _ => True
  | .var _ _ => True
  | .leave _ => True
  | .yield _ _ => True
  | .contract _ _ _ => True
  | .load _ _ _ => True

/-- The same of every statement of a list. -/
def Stmt.AllTestFree : List Stmt → Prop
  | [] => True
  | s :: rest => s.TestFree ∧ Stmt.AllTestFree rest

/-- The same of a statement that may be missing. -/
def Stmt.OptionTestFree : Option Stmt → Prop
  | none => True
  | some s => s.TestFree

end

theorem Stmt.allTestFree_iff (body : List Stmt) :
    Stmt.AllTestFree body ↔ ∀ s ∈ body, s.TestFree := by
  induction body with
  | nil => simp [Stmt.AllTestFree]
  | cons s rest ih => rw [Stmt.AllTestFree, ih, List.forall_mem_cons]

theorem Stmt.allPermitted_iff (inLoop inFunction : Bool) (body : List Stmt) :
    Stmt.AllPermitted inLoop inFunction body ↔ ∀ s ∈ body, s.Permitted inLoop inFunction := by
  induction body with
  | nil => simp [Stmt.AllPermitted]
  | cons s rest ih => rw [Stmt.AllPermitted, ih, List.forall_mem_cons]

mutual

theorem Stmt.testFree_withoutTests : (s : Stmt) → s.withoutTests.TestFree
  | .block body => by
    rw [Stmt.withoutTests, Stmt.TestFree]
    exact Stmt.testFree_dropTests body
  | .branch condition whenTrue whenFalse => by
    rw [Stmt.withoutTests, Stmt.TestFree]
    exact ⟨whenTrue.testFree_withoutTests, Stmt.testFree_optionWithoutTests whenFalse⟩
  | .loop condition body => by
    rw [Stmt.withoutTests, Stmt.TestFree]
    exact body.testFree_withoutTests
  | .function signature body => by
    rw [Stmt.withoutTests, Stmt.TestFree]
    exact Stmt.testFree_dropTests body
  | .test _ _ _ => by
    rw [Stmt.withoutTests, Stmt.TestFree]
    exact trivial
  | .expression _ | .print _ | .var _ _ | .leave _ | .yield _ _ | .contract _ _ _ | .load _ _ _ => by
    rw [Stmt.withoutTests, Stmt.TestFree]
    exact trivial

theorem Stmt.testFree_dropTests : (body : List Stmt) → Stmt.AllTestFree (Stmt.dropTests body)
  | [] => trivial
  | s :: rest => by
    have others := Stmt.testFree_dropTests rest
    rw [Stmt.dropTests]
    split
    · exact others
    · exact ⟨s.testFree_withoutTests, others⟩

theorem Stmt.testFree_optionWithoutTests :
    (s : Option Stmt) → Stmt.OptionTestFree (Stmt.optionWithoutTests s)
  | none => trivial
  | some s => s.testFree_withoutTests

end

mutual

/-- Leaving tests out moves no `break` and no `return` out of its loop or function. -/
theorem Stmt.Permitted.withoutTests {inLoop inFunction : Bool} :
    {s : Stmt} → s.Permitted inLoop inFunction → s.withoutTests.Permitted inLoop inFunction
  | .block _, h => by
    rw [Stmt.withoutTests, Stmt.Permitted]
    rw [Stmt.Permitted] at h
    exact Stmt.AllPermitted.dropTests h
  | .branch _ _ _, h => by
    rw [Stmt.withoutTests, Stmt.Permitted]
    rw [Stmt.Permitted] at h
    exact ⟨h.1, h.2.1.withoutTests, Stmt.OptionPermitted.withoutTests h.2.2⟩
  | .loop _ _, h => by
    rw [Stmt.withoutTests, Stmt.Permitted]
    rw [Stmt.Permitted] at h
    exact ⟨h.1, h.2.withoutTests⟩
  | .function _ _, h => by
    rw [Stmt.withoutTests, Stmt.Permitted]
    rw [Stmt.Permitted] at h
    exact ⟨h.1, Stmt.AllPermitted.dropTests h.2⟩
  | .test _ _ _, _ => by
    rw [Stmt.withoutTests, Stmt.Permitted]
    exact trivial
  | .expression _, h | .print _, h | .var _ _, h | .leave _, h | .yield _ _, h
  | .contract _ _ _, h | .load _ _ _, h => by
    rw [Stmt.withoutTests]
    exact h

theorem Stmt.AllPermitted.dropTests {inLoop inFunction : Bool} : {body : List Stmt} →
    Stmt.AllPermitted inLoop inFunction body →
    Stmt.AllPermitted inLoop inFunction (Stmt.dropTests body)
  | [], _ => trivial
  | s :: rest, h => by
    have others := Stmt.AllPermitted.dropTests h.2
    rw [Stmt.dropTests]
    split
    · exact others
    · exact ⟨h.1.withoutTests, others⟩

theorem Stmt.OptionPermitted.withoutTests {inLoop inFunction : Bool} : {s : Option Stmt} →
    Stmt.OptionPermitted inLoop inFunction s →
    Stmt.OptionPermitted inLoop inFunction (Stmt.optionWithoutTests s)
  | none, _ => trivial
  | some _, h => Stmt.Permitted.withoutTests h

end

theorem Stmt.dropTests_cons {s : Stmt} (h : s.isTest = false) (rest : List Stmt) :
    Stmt.dropTests (s :: rest) = s.withoutTests :: Stmt.dropTests rest := by
  rw [Stmt.dropTests, h]
  exact if_neg Bool.false_ne_true

namespace Parser

variable {α β γ δ : Type}

/-! ## Productions that mirror each other -/

/-- From every state two productions end in the same state: both give up for the same reason, or
their results are related. -/
def Mirrors (R : α → β → Prop) (x : ParseM α) (y : ParseM β) : Prop :=
  ∀ s, (∃ stop s', x s = .error stop s' ∧ y s = .error stop s') ∨
    ∃ a b s', x s = .ok a s' ∧ y s = .ok b s' ∧ R a b

namespace Mirrors

theorem same (x : ParseM α) : Mirrors Eq x x := by
  intro s
  cases h : x s with
  | ok a s' => exact .inr ⟨a, a, s', rfl, rfl, rfl⟩
  | error stop s' => exact .inl ⟨stop, s', rfl, rfl⟩

theorem pure {R : α → β → Prop} {a : α} {b : β} (h : R a b) :
    Mirrors R (pure a : ParseM α) (pure b : ParseM β) :=
  fun s => .inr ⟨a, b, s, rfl, rfl, h⟩

theorem bind {R : α → β → Prop} {Q : γ → δ → Prop} {x : ParseM α} {y : ParseM β}
    {f : α → ParseM γ} {g : β → ParseM δ} (h : Mirrors R x y)
    (next : ∀ a b, R a b → Mirrors Q (f a) (g b)) : Mirrors Q (x >>= f) (y >>= g) := by
  intro s
  rcases h s with ⟨stop, s', hx, hy⟩ | ⟨a, b, s', hx, hy, hR⟩
  · exact .inl ⟨stop, s', bind_run_error hx, bind_run_error hy⟩
  · rw [bind_run_ok hx, bind_run_ok hy]
    exact next a b hR s'

/-- A part that does not depend on the mode, and what follows it. -/
theorem after {Q : γ → δ → Prop} (x : ParseM α) {f : α → ParseM γ} {g : α → ParseM δ}
    (next : ∀ a, Mirrors Q (f a) (g a)) : Mirrors Q (x >>= f) (x >>= g) :=
  (same x).bind fun a b hab => by
    subst hab
    exact next a

theorem ite {R : α → β → Prop} (c : Prop) [Decidable c] {x x' : ParseM α} {y y' : ParseM β}
    (h : Mirrors R x y) (h' : Mirrors R x' y') :
    Mirrors R (if c then x else x') (if c then y else y') := by
  split
  · exact h
  · exact h'

theorem outOfLevels {R : α → β → Prop} :
    Mirrors R (throw .depth : ParseM α) (throw .depth : ParseM β) :=
  fun s => .inl ⟨.depth, s, rfl, rfl⟩

theorem following {R : α → β → Prop} {kind : Token.Kind} {x : ParseM α} {y : ParseM β}
    (h : Mirrors R x y) :
    Mirrors (Option.Rel R) (Parser.following kind x) (Parser.following kind y) :=
  .after (accepted kind) fun _ =>
    .ite _ (h.bind fun _ _ hR => .pure (.some hR)) (.pure .none)

/-- Recovery depends only on the state in which a production gave up. -/
theorem recovering {R : Option Stmt → Option Stmt → Prop} {x y : ParseM (Option Stmt)}
    (h : Mirrors R x y) (nothing : R none none) :
    Mirrors R (Parser.recovering x) (Parser.recovering y) := by
  intro s
  rw [recovering_run x, recovering_run y]
  rcases h s with ⟨stop, s', hx, hy⟩ | ⟨a, b, s', hx, hy, hR⟩
  · rw [hx, hy]
    cases stop with
    | fault => exact .inr ⟨none, none, _, rfl, rfl, nothing⟩
    | depth => exact .inl ⟨.depth, s', rfl, rfl⟩
  · rw [hx, hy]
    exact .inr ⟨a, b, s', rfl, rfl, hR⟩

/-- Running out of levels is reported at the same token. -/
theorem attempting {R : Option Stmt → Option Stmt → Prop} {x y : ParseM (Option Stmt)}
    (h : Mirrors R x y) : Mirrors (Option.Rel R) (Parser.attempting x) (Parser.attempting y) := by
  have caught : ∀ z : ParseM (Option Stmt), ∀ s, Parser.attempting z s = match z s with
      | .ok r s' => .ok (some r) s'
      | .error _ s' => (complain .nestsTooDeeply >>= fun _ => Pure.pure none) s' := by
    intro z s
    show EStateM.tryCatch (EStateM.map some z) _ s = _
    unfold EStateM.tryCatch EStateM.map
    cases z s <;> rfl
  intro s
  rw [caught x, caught y]
  rcases h s with ⟨stop, s', hx, hy⟩ | ⟨a, b, s', hx, hy, hR⟩
  · rw [hx, hy]
    exact (Mirrors.after (complain .nestsTooDeeply) fun _ => .pure .none) s'
  · rw [hx, hy]
    exact .inr ⟨some a, some b, s', rfl, rfl, .some hR⟩

end Mirrors

/-! ## Productions in the two modes -/

/-- A statement that is no test, and the same without the tests inside it. -/
def Kept (s s' : Stmt) : Prop :=
  s.isTest = false ∧ s' = s.withoutTests

/-- A declaration and what is left of it outside test mode. -/
def Left (found found' : Option Stmt) : Prop :=
  found'.toList = Stmt.dropTests found.toList

theorem Kept.left {s s' : Stmt} (h : Kept s s') : Left (some s) (some s') := by
  obtain ⟨noTest, rfl⟩ := h
  exact (Stmt.dropTests_cons noTest []).symm

theorem dropTests_append (body rest : List Stmt) :
    Stmt.dropTests (body ++ rest) = Stmt.dropTests body ++ Stmt.dropTests rest := by
  induction body with
  | nil => rfl
  | cons s body ih =>
    rw [List.cons_append, Stmt.dropTests, Stmt.dropTests, ih]
    split
    · rfl
    · rfl

theorem Left.append {found found' : Option Stmt} {body body' : List Stmt} (h : Left found found')
    (hbody : body' = Stmt.dropTests body) :
    found'.toList ++ body' = Stmt.dropTests (found.toList ++ body) := by
  rw [dropTests_append, h, hbody]

/-- The start of a counting loop is a declaration or an expression, and stays. -/
theorem kept_forLoop {start : Option Stmt} {condition step : Option Expr} {body body' : Stmt}
    (hstart : ∀ s, start = some s → Kept s s) (h : Kept body body') :
    Kept (forLoop start condition step body) (forLoop start condition step body') := by
  obtain ⟨noTest, rfl⟩ := h
  have hloop : ∀ (c : Expr) (s : Stmt), Stmt.isTest (.loop c s) = false := fun _ _ => rfl
  have hstep : ∀ e : Expr, Stmt.isTest (.expression e) = false := fun _ => rfl
  -- the lists that the loop is made of have no test in them, so nothing is dropped from them
  cases start with
  | none =>
    refine ⟨rfl, ?_⟩
    cases step with
    | none => simp only [forLoop, Stmt.withoutTests]
    | some e =>
      simp only [forLoop, Stmt.withoutTests, Stmt.dropTests, noTest, hstep, Bool.false_eq_true,
        if_false]
  | some s =>
    obtain ⟨hs, same⟩ := hstart s rfl
    refine ⟨rfl, ?_⟩
    cases step with
    | none =>
      simp only [forLoop, Stmt.withoutTests, Stmt.dropTests, hs, ← same, hloop, Bool.false_eq_true,
        if_false]
    | some e =>
      simp only [forLoop, Stmt.withoutTests, Stmt.dropTests, hs, ← same, hloop, noTest, hstep,
        Bool.false_eq_true, if_false]

theorem varDeclaration_mirrors (depth : Nat) :
    Mirrors Kept (varDeclaration depth) (varDeclaration depth) := by
  cases depth with
  | zero => exact .outOfLevels
  | succ depth =>
    rw [varDeclaration]
    exact .after _ fun _ => .after _ fun _ => .after _ fun _ => .pure ⟨rfl, rfl⟩

theorem expressionStatement_mirrors (depth : Nat) :
    Mirrors Kept (expressionStatement depth) (expressionStatement depth) := by
  cases depth with
  | zero => exact .outOfLevels
  | succ depth =>
    rw [expressionStatement]
    exact .after _ fun _ => .after _ fun _ => .pure ⟨rfl, rfl⟩

theorem printStatement_mirrors (depth : Nat) :
    Mirrors Kept (printStatement depth) (printStatement depth) := by
  cases depth with
  | zero => exact .outOfLevels
  | succ depth =>
    rw [printStatement]
    exact .after _ fun _ => .after _ fun _ => .pure ⟨rfl, rfl⟩

theorem yieldStatement_mirrors (context : Context) (keyword : Token) (depth : Nat) :
    Mirrors Kept (yieldStatement context keyword depth)
      (yieldStatement { context with keepTests := false } keyword depth) := by
  cases depth with
  | zero => exact .outOfLevels
  | succ depth =>
    rw [yieldStatement, yieldStatement]
    exact .after _ fun _ => .after _ fun _ => .after _ fun _ => .pure ⟨rfl, rfl⟩

theorem contractStatement_mirrors (kind : ContractKind) (place : Place) (depth : Nat) :
    Mirrors Kept (contractStatement kind place depth) (contractStatement kind place depth) := by
  cases depth with
  | zero => exact .outOfLevels
  | succ depth =>
    rw [contractStatement]
    exact .after _ fun _ => .after _ fun _ => .after _ fun _ => .pure ⟨rfl, rfl⟩

theorem loopStart_mirrors (depth : Nat) :
    Mirrors (fun start start' => start' = start ∧ ∀ s, start = some s → Kept s s)
      (loopStart depth) (loopStart depth) := by
  have one : ∀ {x : ParseM Stmt}, Mirrors Kept x x → Mirrors (fun start start' : Option Stmt =>
      start' = start ∧ ∀ s, start = some s → Kept s s)
      (x >>= fun s => pure (some s)) (x >>= fun s => pure (some s)) := by
    intro x h s
    rcases h s with ⟨stop, s', hx, -⟩ | ⟨a, b, s', hx, hy, hkept⟩
    · exact .inl ⟨stop, s', bind_run_error hx, bind_run_error hx⟩
    · -- the two results are those of one production, hence equal
      have same : a = b := by
        rw [hx] at hy
        cases hy
        rfl
      subst same
      refine .inr ⟨some a, some a, s', bind_run_ok hx, bind_run_ok hx, rfl, ?_⟩
      rintro _ ⟨⟩
      exact hkept
  rw [loopStart]
  refine .after _ fun none => .ite _ (.pure ⟨rfl, ?_⟩) ?_
  · rintro _ ⟨⟩
  · exact .after _ fun _ => .ite _ (one (varDeclaration_mirrors depth))
      (one (expressionStatement_mirrors depth))

/-- The productions of statements at one number of levels, in the two modes. -/
structure StatementsMirror (depth : Nat) : Prop where
  declaration : ∀ context, context.keepTests = true →
    Mirrors Left (declaration context depth) (declaration { context with keepTests := false } depth)
  function : ∀ context, context.keepTests = true →
    Mirrors Kept (function context depth) (function { context with keepTests := false } depth)
  testStatement : ∀ context, context.keepTests = true →
    Mirrors (fun s _ => s.isTest = true) (testStatement context depth)
      (testStatement { context with keepTests := false } depth)
  statement : ∀ context, context.keepTests = true →
    Mirrors Kept (statement context depth) (statement { context with keepTests := false } depth)
  block : ∀ context, context.keepTests = true →
    Mirrors (fun body body' => body' = Stmt.dropTests body) (block context depth)
      (block { context with keepTests := false } depth)
  branch : ∀ context, context.keepTests = true →
    Mirrors Kept (branch context depth) (branch { context with keepTests := false } depth)
  loopBody : ∀ context, context.keepTests = true →
    Mirrors Kept (loopBody context depth) (loopBody { context with keepTests := false } depth)
  whileLoop : ∀ context, context.keepTests = true →
    Mirrors Kept (whileLoop context depth) (whileLoop { context with keepTests := false } depth)
  forStatement : ∀ context, context.keepTests = true →
    Mirrors Kept (forStatement context depth) (forStatement { context with keepTests := false } depth)

theorem statementsUntilBrace_mirrors {x y : ParseM (Option Stmt)} (h : Mirrors Left x y)
    (rounds : Nat) : Mirrors (fun body body' => body' = Stmt.dropTests body)
      (statementsUntilBrace x rounds) (statementsUntilBrace y rounds) := by
  induction rounds with
  | zero => exact .pure rfl
  | succ rounds ih =>
    rw [statementsUntilBrace, statementsUntilBrace]
    refine .after current? fun next => ?_
    cases next with
    | none => exact .pure rfl
    | some t =>
      exact .ite _ (.pure rfl) (h.bind fun _ _ hleft => ih.bind fun _ _ hbody =>
        .pure (hleft.append hbody))

section Level

variable {depth : Nat} (ih : StatementsMirror depth) (context : Context)
  (keeps : context.keepTests = true)
include ih keeps

theorem block_mirrors : Mirrors (fun body body' => body' = Stmt.dropTests body)
    (block context (depth + 1)) (block { context with keepTests := false } (depth + 1)) := by
  rw [block, block]
  exact .after total fun _ => (statementsUntilBrace_mirrors (ih.declaration context keeps) _).bind
    fun _ _ hbody => .after _ fun _ => .pure hbody

theorem function_mirrors : Mirrors Kept (function context (depth + 1))
    (function { context with keepTests := false } (depth + 1)) := by
  rw [function, function]
  refine .after _ fun signature =>
    (ih.block { context with inLoop := false, inFunction := true } keeps).bind fun body body' h => ?_
  subst h
  exact .pure ⟨rfl, by rw [Stmt.withoutTests]⟩

theorem testStatement_mirrors : Mirrors (fun s _ => s.isTest = true)
    (testStatement context (depth + 1))
    (testStatement { context with keepTests := false } (depth + 1)) := by
  rw [testStatement, testStatement]
  exact .after _ fun name =>
    (ih.statement { context with inLoop := false, inFunction := false } keeps).bind fun _ _ _ =>
      .pure rfl

theorem branch_mirrors : Mirrors Kept (branch context (depth + 1))
    (branch { context with keepTests := false } (depth + 1)) := by
  rw [branch, branch]
  refine .after _ fun _ => .after _ fun condition => .after _ fun _ =>
    (ih.statement context keeps).bind fun whenTrue _ htrue =>
    (Mirrors.following (ih.statement context keeps)).bind fun whenFalse whenFalse' hfalse => ?_
  obtain ⟨-, rfl⟩ := htrue
  refine .pure ⟨rfl, ?_⟩
  rw [Stmt.withoutTests]
  cases hfalse with
  | none => rfl
  | some hkept =>
    obtain ⟨-, rfl⟩ := hkept
    rfl

theorem whileLoop_mirrors : Mirrors Kept (whileLoop context (depth + 1))
    (whileLoop { context with keepTests := false } (depth + 1)) := by
  rw [whileLoop, whileLoop]
  refine .after _ fun _ => .after _ fun condition => .after _ fun _ =>
    (ih.loopBody context keeps).bind fun body _ hbody => ?_
  obtain ⟨-, rfl⟩ := hbody
  exact .pure ⟨rfl, by rw [Stmt.withoutTests]⟩

theorem forStatement_mirrors : Mirrors Kept (forStatement context (depth + 1))
    (forStatement { context with keepTests := false } (depth + 1)) := by
  rw [forStatement, forStatement]
  refine .after _ fun _ => (loopStart_mirrors depth).bind fun start start' hstart => ?_
  obtain ⟨rfl, hkept⟩ := hstart
  exact .after _ fun _ => .after _ fun _ => .after _ fun _ => .after _ fun _ =>
    (ih.loopBody context keeps).bind fun _ _ hbody => .pure (kept_forLoop hkept hbody)

theorem statement_mirrors : Mirrors Kept (statement context (depth + 1))
    (statement { context with keepTests := false } (depth + 1)) := by
  rw [statement, statement]
  refine .after _ fun _ => .ite _ (printStatement_mirrors depth) ?_
  refine .after _ fun _ => .ite _ ?block ?_
  case block =>
    refine (ih.block context keeps).bind fun body body' h => ?_
    subst h
    exact .pure ⟨rfl, by rw [Stmt.withoutTests]⟩
  refine .after _ fun _ => .ite _ (ih.branch context keeps) ?_
  refine .after _ fun _ => .ite _ (ih.whileLoop context keeps) ?_
  refine .after _ fun _ => .ite _ (ih.forStatement context keeps) ?_
  -- the keywords that are left are tried in turn, and both parsers find the same one
  refine .after _ fun leaving => ?_
  cases leaving with
  | some keyword => exact .after _ fun _ => .after _ fun _ => .pure ⟨rfl, rfl⟩
  | none =>
    refine .after _ fun yielding => ?_
    cases yielding with
    | some keyword => exact yieldStatement_mirrors context keyword depth
    | none =>
      refine .after _ fun asserting => ?_
      cases asserting with
      | some keyword => exact contractStatement_mirrors .assertion keyword.place depth
      | none =>
        refine .after _ fun checking => ?_
        cases checking with
        | some keyword => exact contractStatement_mirrors .check keyword.place depth
        | none =>
          refine .after _ fun _ => .ite _ ?load (expressionStatement_mirrors depth)
          case load =>
            exact .after _ fun _ => .after _ fun _ => .after _ fun _ => .pure ⟨rfl, rfl⟩

theorem declaration_mirrors : Mirrors Left (declaration context (depth + 1))
    (declaration { context with keepTests := false } (depth + 1)) := by
  rw [declaration, declaration]
  refine Mirrors.recovering ?_ rfl
  refine .after _ fun _ => .ite _ ?_ (.after _ fun _ => .ite _ ?_ (.after _ fun _ => .ite _ ?_ ?_))
  · exact (varDeclaration_mirrors depth).bind fun _ _ h => .pure h.left
  · exact (ih.function context keeps).bind fun _ _ h => .pure h.left
  · -- the one place where the mode counts: the test itself is dropped
    refine (ih.testStatement context keeps).bind fun s s' h => ?_
    rw [if_pos keeps]
    refine .pure ?_
    show [] = Stmt.dropTests [s]
    rw [Stmt.dropTests, if_pos h]
    rfl
  · exact (ih.statement context keeps).bind fun _ _ h => .pure h.left

end Level

theorem statementsMirror (depth : Nat) : StatementsMirror depth := by
  induction depth with
  | zero =>
    exact ⟨fun _ _ => .outOfLevels, fun _ _ => .outOfLevels, fun _ _ => .outOfLevels,
      fun _ _ => .outOfLevels, fun _ _ => .outOfLevels, fun _ _ => .outOfLevels,
      fun _ _ => .outOfLevels, fun _ _ => .outOfLevels, fun _ _ => .outOfLevels⟩
  | succ depth ih =>
    exact
      { declaration := declaration_mirrors ih
        function := function_mirrors ih
        testStatement := testStatement_mirrors ih
        statement := statement_mirrors ih
        block := block_mirrors ih
        branch := branch_mirrors ih
        loopBody := fun context keeps => by
          rw [loopBody, loopBody]
          exact ih.statement { context with inLoop := true } keeps
        whileLoop := whileLoop_mirrors ih
        forStatement := forStatement_mirrors ih }

theorem declarations_mirrors {x y : ParseM (Option Stmt)} (h : Mirrors Left x y) (rounds : Nat) :
    Mirrors (fun p p' => p' = Stmt.dropTests p) (declarations x rounds) (declarations y rounds) := by
  induction rounds with
  | zero => exact .pure rfl
  | succ rounds ih =>
    rw [declarations, declarations]
    refine .after current? fun next => ?_
    cases next with
    | none => exact .pure rfl
    | some t =>
      refine h.attempting.bind fun found found' hfound => ?_
      cases hfound with
      | none => exact .pure rfl
      | some hleft => exact ih.bind fun _ _ hbody => .pure (hleft.append hbody)

end Parser

/-! ## Programs -/

/-- Outside test mode the program is the one of test mode without its tests, and the reports are
the same. -/
theorem Program.parse_dropping (input : TokenList) :
    Program.parse false input
      = (Stmt.dropTests (Program.parse true input).1, (Program.parse true input).2) := by
  have mirrors := Parser.declarations_mirrors
    ((Parser.statementsMirror Parser.nesting).declaration (Parser.Context.top true) rfl)
    input.tokens.length (Parser.State.start input)
  obtain ⟨p, s, run⟩ := Parser.declarations_total
    (Parser.declaration (Parser.Context.top true) Parser.nesting) input.tokens.length
    (Parser.State.start input)
  rcases mirrors with ⟨stop, s', stopped, -⟩ | ⟨p', q, s', run', dropped, rfl⟩
  · -- a whole program is always read to its end
    rw [run] at stopped
    cases stopped
  · rw [Program.parse_run true input run', Program.parse_run false input dropped]

theorem Program.ofSource_dropping (file : Option String) (source : String) :
    Program.ofSource false file source
      = (Stmt.dropTests (Program.ofSource true file source).1,
        (Program.ofSource true file source).2) := by
  unfold Program.ofSource
  simp only [Program.parse_dropping]

/-- What is parsed without a report keeps to the limits, in test mode and outside it. -/
theorem Program.permitted_of_ofSource {keepTests : Bool} {file : Option String} {source : String}
    (quiet : (Program.ofSource keepTests file source).2 = []) :
    (Program.ofSource keepTests file source).1.Permitted := by
  have inTestMode : (Program.ofSource true file source).2 = [] →
      (Program.ofSource true file source).1.Permitted := by
    intro h
    exact (Program.derives_of_parse _ (List.append_eq_nil_iff.mp h).2).2
  cases keepTests with
  | true => exact inTestMode quiet
  | false =>
    rw [Program.ofSource_dropping] at quiet ⊢
    exact Stmt.AllPermitted.dropTests (inTestMode quiet)

/-- Outside test mode a program has no tests. -/
theorem Program.testFree_of_ofSource (file : Option String) (source : String) :
    Stmt.AllTestFree (Program.ofSource false file source).1 := by
  rw [Program.ofSource_dropping]
  exact Stmt.testFree_dropTests _

end ContractScript
