/-
Where tests can stand, and what is left of a program without them.

Leaving tests out is an operation on lists of statements: the top level, the body of a
block and the body of a function. It would be more than that if a test could also be the
branch of an `if`, the body of a loop or the body of another test, because then something
else would have to take its place. The parser builds no such program, not even from
tokens with faults in them, so outside test mode nothing is put in the place of a test:
the lists become shorter and that is all.

The proof follows the productions. A production gives what has some property if every
result of it has, whatever the state was and whatever was reported on the way.
-/
import ContractScript.Proofs.Program.Dropping

set_option autoImplicit false

namespace ContractScript

/-! ## Tests in lists -/

mutual

/-- Every test inside the statement stands in a list of statements. -/
def Stmt.TestsListed : Stmt → Prop
  | .block body => Stmt.AllTestsListed body
  | .branch _ whenTrue whenFalse =>
    (whenTrue.isTest = false ∧ whenTrue.TestsListed) ∧ Stmt.OptionTestsListed whenFalse
  | .loop _ body => body.isTest = false ∧ body.TestsListed
  | .function _ body => Stmt.AllTestsListed body
  | .test _ _ body => body.isTest = false ∧ body.TestsListed
  | .expression _ => True
  | .print _ => True
  | .var _ _ => True
  | .leave _ => True
  | .yield _ _ => True
  | .contract _ _ _ => True
  | .load _ _ _ => True

/-- The statements of a list may themselves be tests. -/
def Stmt.AllTestsListed : List Stmt → Prop
  | [] => True
  | s :: rest => s.TestsListed ∧ Stmt.AllTestsListed rest

/-- A statement that may be missing is not itself a test. -/
def Stmt.OptionTestsListed : Option Stmt → Prop
  | none => True
  | some s => s.isTest = false ∧ s.TestsListed

end

/-- A statement that can stand outside a list: it is no test, and those inside it are in lists. -/
def Stmt.Alone (s : Stmt) : Prop :=
  s.isTest = false ∧ s.TestsListed

/-- Statements with no statement inside them. -/
def Stmt.isSimple : Stmt → Bool
  | .expression _ | .print _ | .var _ _ | .leave _ | .yield _ _ | .contract _ _ _ | .load _ _ _ => true
  | .block _ | .branch _ _ _ | .loop _ _ | .function _ _ | .test _ _ _ => false

theorem Stmt.alone_of_isSimple {s : Stmt} (h : s.isSimple = true) : s.Alone := by
  cases s with
  | block | branch | loop | function | test => cases h
  | _ =>
    refine ⟨rfl, ?_⟩
    rw [TestsListed]
    trivial

theorem Stmt.AllTestsListed.append {body rest : List Stmt} (h : Stmt.AllTestsListed body)
    (hrest : Stmt.AllTestsListed rest) : Stmt.AllTestsListed (body ++ rest) := by
  induction body with
  | nil => exact hrest
  | cons s body ih => exact ⟨h.1, ih h.2⟩

/-- A counting loop is made of statements that are no tests. -/
theorem Stmt.alone_forLoop {start : Option Stmt} {condition step : Option Expr} {body : Stmt}
    (hstart : Stmt.OptionTestsListed start) (hbody : body.Alone) :
    (Parser.forLoop start condition step body).Alone := by
  have round : ∀ e, (Stmt.block [body, .expression e]).Alone := fun e =>
    ⟨rfl, by rw [TestsListed]; exact ⟨hbody.2, (alone_of_isSimple (s := .expression e) rfl).2, trivial⟩⟩
  have loops : ∀ c s, Stmt.Alone s → (Stmt.loop c s).Alone := fun c s hs =>
    ⟨rfl, by rw [TestsListed]; exact hs⟩
  have whole : ∀ s, s.Alone → ∀ first, Stmt.OptionTestsListed (some first) →
      (Stmt.block [first, s]).Alone := fun s hs first hfirst =>
    ⟨rfl, by rw [TestsListed]; exact ⟨hfirst.2, hs.2, trivial⟩⟩
  unfold Parser.forLoop
  cases step with
  | none =>
    cases start with
    | none => exact loops _ _ hbody
    | some first => exact whole _ (loops _ _ hbody) first hstart
  | some e =>
    cases start with
    | none => exact loops _ _ (round e)
    | some first => exact whole _ (loops _ _ (round e)) first hstart

namespace Parser

variable {α β : Type}

/-! ## What productions give -/

/-- Every result of a production has a property. -/
def Gives (P : α → Prop) (x : ParseM α) : Prop :=
  ∀ s a s', x s = .ok a s' → P a

namespace Gives

variable {P : α → Prop} {Q : β → Prop}

theorem pure {a : α} (h : P a) : Gives P (pure a : ParseM α) := by
  rintro s _ _ ⟨⟩
  exact h

theorem stop (stop : Stop) : Gives P (throw stop : ParseM α) := by
  rintro s _ _ ⟨⟩

theorem bind {x : ParseM α} {f : α → ParseM β} (h : Gives P x) (next : ∀ a, P a → Gives Q (f a)) :
    Gives Q (x >>= f) := by
  intro s b s' run
  cases first : x s with
  | ok a s₁ =>
    rw [bind_run_ok first] at run
    exact next a (h s a s₁ first) s₁ b s' run
  | error e s₁ =>
    rw [bind_run_error first] at run
    cases run

/-- What comes before may give anything. -/
theorem after (x : ParseM α) {f : α → ParseM β} (next : ∀ a, Gives Q (f a)) : Gives Q (x >>= f) :=
  bind (P := fun _ => True) (fun _ _ _ _ => trivial) fun a _ => next a

theorem ite (c : Prop) [Decidable c] {x y : ParseM α} (hx : Gives P x) (hy : Gives P y) :
    Gives P (if c then x else y) := by
  split
  · exact hx
  · exact hy

/-- After a fault there is no result of the production, but none at all. -/
theorem recovering {R : Option Stmt → Prop} {x : ParseM (Option Stmt)} (h : Gives R x)
    (nothing : R none) : Gives R (Parser.recovering x) := by
  intro s a s' run
  rw [recovering_run] at run
  cases first : x s with
  | ok b s₁ =>
    rw [first] at run
    cases run
    exact h s a s' first
  | error e s₁ =>
    rw [first] at run
    cases e with
    | fault =>
      cases run
      exact nothing
    | depth => cases run

theorem attempting {R : Option Stmt → Prop} {x : ParseM (Option Stmt)} (h : Gives R x) :
    Gives (fun found => ∀ r, found = some r → R r) (Parser.attempting x) := by
  intro s a s' run
  rcases attempting_run x s with ⟨r, s₁, first, ended⟩ | ⟨_, _, _, _, _, ended, _⟩
  · rw [ended] at run
    cases run
    rintro _ ⟨⟩
    exact h s r s' first
  · rw [ended] at run
    cases run
    rintro _ ⟨⟩

end Gives

/-! ## Productions -/

theorem varDeclaration_gives (depth : Nat) : Gives Stmt.Alone (varDeclaration depth) := by
  cases depth with
  | zero => exact .stop _
  | succ depth =>
    rw [varDeclaration]
    exact .after _ fun _ => .after _ fun _ => .after _ fun _ =>
      .pure (Stmt.alone_of_isSimple rfl)

theorem expressionStatement_gives (depth : Nat) : Gives Stmt.Alone (expressionStatement depth) := by
  cases depth with
  | zero => exact .stop _
  | succ depth =>
    rw [expressionStatement]
    exact .after _ fun _ => .after _ fun _ => .pure (Stmt.alone_of_isSimple rfl)

theorem printStatement_gives (depth : Nat) : Gives Stmt.Alone (printStatement depth) := by
  cases depth with
  | zero => exact .stop _
  | succ depth =>
    rw [printStatement]
    exact .after _ fun _ => .after _ fun _ => .pure (Stmt.alone_of_isSimple rfl)

theorem leaveStatement_gives (context : Context) (keyword : Token) :
    Gives Stmt.Alone (leaveStatement context keyword) := by
  rw [leaveStatement]
  exact .after _ fun _ => .after _ fun _ => .pure (Stmt.alone_of_isSimple rfl)

theorem yieldStatement_gives (context : Context) (keyword : Token) (depth : Nat) :
    Gives Stmt.Alone (yieldStatement context keyword depth) := by
  cases depth with
  | zero => exact .stop _
  | succ depth =>
    rw [yieldStatement]
    exact .after _ fun _ => .after _ fun _ => .after _ fun _ =>
      .pure (Stmt.alone_of_isSimple rfl)

theorem contractStatement_gives (kind : ContractKind) (place : Place) (depth : Nat) :
    Gives Stmt.Alone (contractStatement kind place depth) := by
  cases depth with
  | zero => exact .stop _
  | succ depth =>
    rw [contractStatement]
    exact .after _ fun _ => .after _ fun _ => .after _ fun _ =>
      .pure (Stmt.alone_of_isSimple rfl)

theorem loadStatement_gives : Gives Stmt.Alone loadStatement := by
  rw [loadStatement]
  exact .after _ fun _ => .after _ fun _ => .after _ fun _ =>
    .pure (Stmt.alone_of_isSimple rfl)

theorem loopStart_gives (depth : Nat) : Gives Stmt.OptionTestsListed (loopStart depth) := by
  rw [loopStart]
  refine .after _ fun _ => .ite _ (.pure trivial) (.after _ fun _ => .ite _ ?_ ?_)
  · exact (varDeclaration_gives depth).bind fun _ h => .pure h
  · exact (expressionStatement_gives depth).bind fun _ h => .pure h

/-- What a declaration adds to the list that it belongs to. -/
def Joinable (found : Option Stmt) : Prop :=
  Stmt.AllTestsListed found.toList

theorem Joinable.of_alone {s : Stmt} (h : s.Alone) : Joinable (some s) :=
  ⟨h.2, trivial⟩

theorem statementsUntilBrace_gives {x : ParseM (Option Stmt)} (h : Gives Joinable x) (rounds : Nat) :
    Gives Stmt.AllTestsListed (statementsUntilBrace x rounds) := by
  induction rounds with
  | zero => exact .pure trivial
  | succ rounds ih =>
    rw [statementsUntilBrace]
    refine .after current? fun next => ?_
    cases next with
    | none => exact .pure trivial
    | some t =>
      exact .ite _ (.pure trivial) (h.bind fun _ hfirst => ih.bind fun _ hrest =>
        .pure (hfirst.append hrest))

/-- The productions of statements at one number of levels. -/
structure StatementsGive (depth : Nat) : Prop where
  declaration : ∀ context, Gives Joinable (declaration context depth)
  function : ∀ context, Gives Stmt.Alone (function context depth)
  testStatement : ∀ context, Gives Stmt.TestsListed (testStatement context depth)
  statement : ∀ context, Gives Stmt.Alone (statement context depth)
  block : ∀ context, Gives Stmt.AllTestsListed (block context depth)
  branch : ∀ context, Gives Stmt.Alone (branch context depth)
  loopBody : ∀ context, Gives Stmt.Alone (loopBody context depth)
  whileLoop : ∀ context, Gives Stmt.Alone (whileLoop context depth)
  forStatement : ∀ context, Gives Stmt.Alone (forStatement context depth)

section Level

variable {depth : Nat} (ih : StatementsGive depth) (context : Context)
include ih

theorem block_gives : Gives Stmt.AllTestsListed (block context (depth + 1)) := by
  rw [block]
  exact .after total fun _ => (statementsUntilBrace_gives (ih.declaration context) _).bind
    fun _ hbody => .after _ fun _ => .pure hbody

theorem function_gives : Gives Stmt.Alone (function context (depth + 1)) := by
  rw [function]
  exact .after _ fun _ => (ih.block _).bind fun _ hbody =>
    .pure ⟨rfl, by rw [Stmt.TestsListed]; exact hbody⟩

/-- The body of a test is a statement, and no statement is a test. -/
theorem testStatement_gives : Gives Stmt.TestsListed (testStatement context (depth + 1)) := by
  rw [testStatement]
  exact .after _ fun _ => (ih.statement _).bind fun _ hbody =>
    .pure (by rw [Stmt.TestsListed]; exact hbody)

theorem branch_gives : Gives Stmt.Alone (branch context (depth + 1)) := by
  rw [branch]
  refine .after _ fun _ => .after _ fun condition => .after _ fun _ =>
    (ih.statement context).bind fun whenTrue htrue => ?_
  have otherwise : Gives Stmt.OptionTestsListed (following .kwElse (statement context depth)) :=
    .after (accepted .kwElse) fun _ =>
      .ite _ ((ih.statement context).bind fun _ h => .pure h) (.pure trivial)
  exact otherwise.bind fun _ hfalse => .pure ⟨rfl, by rw [Stmt.TestsListed]; exact ⟨htrue, hfalse⟩⟩

theorem whileLoop_gives : Gives Stmt.Alone (whileLoop context (depth + 1)) := by
  rw [whileLoop]
  exact .after _ fun _ => .after _ fun _ => .after _ fun _ => (ih.loopBody context).bind
    fun _ hbody => .pure ⟨rfl, by rw [Stmt.TestsListed]; exact hbody⟩

theorem forStatement_gives : Gives Stmt.Alone (forStatement context (depth + 1)) := by
  rw [forStatement]
  exact .after _ fun _ => (loopStart_gives depth).bind fun _ hstart => .after _ fun _ =>
    .after _ fun _ => .after _ fun _ => .after _ fun _ => (ih.loopBody context).bind
      fun _ hbody => .pure (Stmt.alone_forLoop hstart hbody)

theorem statement_gives : Gives Stmt.Alone (statement context (depth + 1)) := by
  rw [statement]
  refine .after _ fun _ => .ite _ (printStatement_gives depth) ?_
  refine .after _ fun _ => .ite _ ?block ?_
  case block =>
    exact (ih.block context).bind fun _ hbody =>
      .pure ⟨rfl, by rw [Stmt.TestsListed]; exact hbody⟩
  refine .after _ fun _ => .ite _ (ih.branch context) ?_
  refine .after _ fun _ => .ite _ (ih.whileLoop context) ?_
  refine .after _ fun _ => .ite _ (ih.forStatement context) ?_
  -- the keywords that are left are tried in turn, and none of them starts a test
  refine .after _ fun leaving => ?_
  cases leaving with
  | some keyword => exact leaveStatement_gives context keyword
  | none =>
    refine .after _ fun yielding => ?_
    cases yielding with
    | some keyword => exact yieldStatement_gives context keyword depth
    | none =>
      refine .after _ fun asserting => ?_
      cases asserting with
      | some keyword => exact contractStatement_gives .assertion keyword.place depth
      | none =>
        refine .after _ fun checking => ?_
        cases checking with
        | some keyword => exact contractStatement_gives .check keyword.place depth
        | none => exact .after _ fun _ => .ite _ loadStatement_gives (expressionStatement_gives depth)

theorem declaration_gives : Gives Joinable (declaration context (depth + 1)) := by
  rw [declaration]
  refine Gives.recovering ?_ trivial
  refine .after _ fun _ => .ite _ ?_ (.after _ fun _ => .ite _ ?_ (.after _ fun _ => .ite _ ?_ ?_))
  · exact (varDeclaration_gives depth).bind fun _ h => .pure (.of_alone h)
  · exact (ih.function context).bind fun _ h => .pure (.of_alone h)
  · -- a test is given here and nowhere else, and goes straight into a list
    refine (ih.testStatement context).bind fun _ h => .pure ?_
    split
    · exact ⟨h, trivial⟩
    · exact trivial
  · exact (ih.statement context).bind fun _ h => .pure (.of_alone h)

end Level

theorem statementsGive (depth : Nat) : StatementsGive depth := by
  induction depth with
  | zero =>
    exact ⟨fun _ => .stop _, fun _ => .stop _, fun _ => .stop _, fun _ => .stop _, fun _ => .stop _,
      fun _ => .stop _, fun _ => .stop _, fun _ => .stop _, fun _ => .stop _⟩
  | succ depth ih =>
    exact
      { declaration := declaration_gives ih
        function := function_gives ih
        testStatement := testStatement_gives ih
        statement := statement_gives ih
        block := block_gives ih
        branch := branch_gives ih
        loopBody := fun context => by
          rw [loopBody]
          exact ih.statement { context with inLoop := true }
        whileLoop := whileLoop_gives ih
        forStatement := forStatement_gives ih }

theorem declarations_gives {x : ParseM (Option Stmt)} (h : Gives Joinable x) (rounds : Nat) :
    Gives Stmt.AllTestsListed (declarations x rounds) := by
  induction rounds with
  | zero => exact .pure trivial
  | succ rounds ih =>
    rw [declarations]
    refine .after current? fun next => ?_
    cases next with
    | none => exact .pure trivial
    | some t =>
      refine (Gives.attempting h).bind fun found hfound => ?_
      cases found with
      | none => exact .pure trivial
      | some first => exact ih.bind fun _ hrest => .pure ((hfound first rfl).append hrest)

end Parser

/-! ## Programs -/

/-- Whatever the tokens are, tests stand in lists of statements only. -/
theorem Program.parse_testsListed (keepTests : Bool) (input : TokenList) :
    Stmt.AllTestsListed (Program.parse keepTests input).1 := by
  obtain ⟨p, s, run⟩ := Parser.declarations_total
    (Parser.declaration (Parser.Context.top keepTests) Parser.nesting) input.tokens.length
    (Parser.State.start input)
  rw [Program.parse_run keepTests input run]
  exact Parser.declarations_gives ((Parser.statementsGive Parser.nesting).declaration _) _ _ p s run

/-- Leaving tests out changes nothing else. For all tokens, whatever faults are found in them, the
parse outside test mode reports what the parse in test mode reports, in the same order, and its
program is the other one with the tests taken out of the lists they stand in: of the top level, of
every block and of every function. None is left, and none stood anywhere else. -/
theorem Program.parse_only_tests_dropped (input : TokenList) :
    (Program.parse false input).2 = (Program.parse true input).2 ∧
    (Program.parse false input).1 = Stmt.dropTests (Program.parse true input).1 ∧
    Stmt.AllTestFree (Program.parse false input).1 ∧
    Stmt.AllTestsListed (Program.parse true input).1 := by
  rw [Program.parse_dropping input]
  exact ⟨rfl, rfl, Stmt.testFree_dropTests _, Program.parse_testsListed true input⟩

end ContractScript
