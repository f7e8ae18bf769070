/-
The parser always makes progress.

Productions call each other without taking a token, errors unwind from any depth, and a
declaration that failed is followed by another attempt; so it has to be said why parsing
comes to an end. Between two tokens that are taken there are at most sixteen levels: the
productions of an expression from the loosest to the tightest, and the statement around
them. Hence a budget of levels that is linear in the number of tokens is never used up.
And each declaration takes at least one token: one that ends with a statement takes a
keyword or the semicolon behind an expression, and one that fails is recovered from,
which drops a token unless the fault came when none was left, and then some had been
taken before.
-/
import ContractScript.Proofs.Program.Concatenation
import ContractScript.Proofs.Program.Walking

set_option autoImplicit false

namespace ContractScript

namespace Parser

variable {α β : Type}

/-! ## Expressions -/

theorem operators_proceeds {t : Tier} {operand : ParseM Expr} (rounds : Nat) :
    ∀ {n : Nat} {room : Prop} (left : Expr), Proceeds n room operand →
      Proceeds n room (operators t operand rounds left) := by
  induction rounds with
  | zero => exact fun left _ => .pure left
  | succ rounds ih =>
    intro n room left h
    exact .acceptMap (fun join => h.fewer.bind fun right => ih _ h.fewer) (.pure left)

theorem qualifiers_proceeds (rounds : Nat) :
    ∀ {n : Nat} {room : Prop}, Proceeds n room (qualifiers rounds) := by
  induction rounds with
  | zero => exact .pure []
  | succ rounds ih =>
    intro n room
    exact .accepted ((Proceeds.expect _ _).bind fun t => ih.bind fun names => .pure _) (.pure [])

theorem suffixes_proceeds {call subscript : Expr → Place → ParseM Expr} (rounds : Nat) :
    ∀ {n : Nat} {room : Prop} (operand : Expr),
      (∀ e p, Proceeds (n - 1) (room ∧ 1 < n) (call e p)) →
      (∀ e p, Proceeds (n - 1) (room ∧ 1 < n) (subscript e p)) →
      Proceeds n room (suffixes call subscript rounds operand) := by
  induction rounds with
  | zero => exact fun operand _ _ => .pure operand
  | succ rounds ih =>
    intro n room operand hcall hsubscript
    have next : ∀ e, Proceeds (n - 1) (room ∧ 1 < n) (suffixes call subscript rounds e) :=
      fun e => ih e (fun e p => (hcall e p).fewer) fun e p => (hsubscript e p).fewer
    exact .accept (fun t => (hcall operand t.place).bind next)
      (.accept (fun t => (hsubscript operand t.place).bind next) (.pure operand))

theorem assigning_proceeds {n : Nat} {room : Prop} (equals : Token) (target value : Expr) :
    Proceeds n room (assigning equals target value) := by
  unfold assigning
  split
  · exact .pure _
  · exact (Proceeds.complainAt equals _).bind fun _ => .pure target

/-- The levels from the operators of a tier down to a token. -/
def Tier.levels : Tier → Nat
  | .or => 9
  | .and => 8
  | .equality => 7
  | .comparison => 6
  | .term => 5
  | .factor => 4

/-- The productions of expressions at one number of levels. There is room for `n` tokens if there
are sixteen levels for each, and those down to the first token. -/
structure ExpressionsProceed (depth : Nat) : Prop where
  expression : ∀ {n room}, (room → 16 * n + 12 ≤ depth) → Proceeds n room (expression depth)
  assignment : ∀ {n room}, (room → 16 * n + 11 ≤ depth) → Proceeds n room (assignment depth)
  choice : ∀ {n room}, (room → 16 * n + 10 ≤ depth) → Proceeds n room (choice depth)
  tier : ∀ {n room} t, (room → 16 * n + t.levels ≤ depth) → Proceeds n room (tier depth t)
  unary : ∀ {n room}, (room → 16 * n + 3 ≤ depth) → Proceeds n room (unary depth)
  postfixed : ∀ {n room}, (room → 16 * n + 2 ≤ depth) → Proceeds n room (postfixed depth)
  arguments : ∀ {n room} e, (room → 16 * n + 13 ≤ depth) → Proceeds n room (arguments depth e)
  subscript : ∀ {n room} e p, (room → 16 * n + 13 ≤ depth) → Proceeds n room (subscript depth e p)
  primary : ∀ {n room}, (room → 16 * n + 1 ≤ depth) → Proceeds n room (primary depth)
  mapEntries : ∀ {n room}, (room → 16 * n + 13 ≤ depth) → Proceeds n room (mapEntries depth)

section ExpressionLevel

variable {depth n : Nat} {room : Prop} (ih : ExpressionsProceed depth)
include ih

theorem assignment_proceeds (h : room → 16 * n + 11 ≤ depth + 1) :
    Proceeds n room (assignment (depth + 1)) := by
  rw [assignment]
  exact (ih.choice fun r => by have := h r; omega).bind fun target => .accept
    (fun equals => (ih.assignment fun r => by have := h r.1; omega).bind fun value =>
      assigning_proceeds equals target value) (.pure target)

theorem choice_proceeds (h : room → 16 * n + 10 ≤ depth + 1) :
    Proceeds n room (choice (depth + 1)) := by
  have again : Proceeds (n - 1) (room ∧ 1 < n) (choice depth) :=
    ih.choice fun r => by have := h r.1; omega
  rw [choice]
  exact (ih.tier .or fun r => by have := h r; simp only [Tier.levels]; omega).bind fun condition =>
    .accepted (again.bind fun _ => (Proceeds.expect _ _).bind fun _ => again.bind fun _ => .pure _)
      (.pure condition)

theorem tier_proceeds (t : Tier) (h : room → 16 * n + t.levels ≤ depth + 1) :
    Proceeds n room (tier (depth + 1) t) := by
  have whole : ∀ operand : ParseM Expr, Proceeds n room operand →
      Proceeds n room (do let left ← operand; operators t operand (← total) left) :=
    fun operand hop => hop.bind fun left => Proceeds.total.bind fun m =>
      operators_proceeds m left hop
  rw [tier]
  cases t with
  | factor => exact whole _ (ih.unary fun r => by have := h r; simp only [Tier.levels] at this; omega)
  | _ =>
    exact whole _ (ih.tier _ fun r => by have := h r; simp only [Tier.levels] at this ⊢; omega)

theorem unary_proceeds (h : room → 16 * n + 3 ≤ depth + 1) :
    Proceeds n room (unary (depth + 1)) := by
  rw [unary]
  exact .acceptMap (fun op => (ih.unary fun r => by have := h r.1; omega).bind fun _ => .pure _)
    (ih.postfixed fun r => by have := h r; omega)

theorem postfixed_proceeds (h : room → 16 * n + 2 ≤ depth + 1) :
    Proceeds n room (postfixed (depth + 1)) := by
  rw [postfixed]
  exact (ih.primary fun r => by have := h r; omega).bind fun operand => Proceeds.total.bind fun m =>
    suffixes_proceeds m operand (fun e _ => ih.arguments e fun r => by have := h r.1; omega)
      fun e p => ih.subscript e p fun r => by have := h r.1; omega

theorem arguments_proceeds (callee : Expr) (h : room → 16 * n + 13 ≤ depth + 1) :
    Proceeds n room (arguments (depth + 1) callee) := by
  rw [arguments]
  exact (Proceeds.itemsUntil (fun _ _ count => .limitCount _ count)
    (ih.expression fun r => by have := h r; omega)).bind fun _ =>
      (Proceeds.expect _ _).bind fun _ => .pure _

theorem subscript_proceeds (collection : Expr) (bracket : Place)
    (h : room → 16 * n + 13 ≤ depth + 1) :
    Proceeds n room (subscript (depth + 1) collection bracket) := by
  have key : Proceeds n room (expression depth) := ih.expression fun r => by have := h r; omega
  rw [subscript]
  exact key.bind fun _ => .accepted
    (key.fewer.bind fun _ => (Proceeds.expect _ _).bind fun _ => .pure _)
    ((Proceeds.expect _ _).bind fun _ => .pure _)

theorem mapEntries_proceeds (h : room → 16 * n + 13 ≤ depth + 1) :
    Proceeds n room (mapEntries (depth + 1)) := by
  have part : Proceeds n room (expression depth) := ih.expression fun r => by have := h r; omega
  rw [mapEntries]
  exact (Proceeds.itemsUntil (fun _ _ _ => .pure ()) (part.bind fun _ =>
    (Proceeds.expect _ _).bind fun _ => part.bind fun _ => .pure _)).bind fun _ =>
      (Proceeds.expect _ _).bind fun _ => .pure _

/-- Every way on from a primary expression begins with a token. -/
theorem primary_proceeds (h : room → 16 * n + 1 ≤ depth + 1) :
    Proceeds n room (primary (depth + 1)) := by
  have inner : Proceeds (n - 1) (room ∧ 1 < n) (expression depth) :=
    ih.expression fun r => by have := h r.1; omega
  rw [primary]
  refine .acceptMap (fun value => .pure _) (.accept (fun name => ?name) (.accepted ?group
    (.accepted ?list (.accepted ?map (.acceptMap (fun t => ?operator) (.fail _))))))
  case name => exact Proceeds.total.bind fun m => (qualifiers_proceeds m).bind fun _ => .pure _
  case group => exact inner.bind fun _ => (Proceeds.expect _ _).bind fun _ => .pure _
  case list =>
    exact (Proceeds.itemsUntil (fun _ _ _ => .pure ()) inner).bind fun _ =>
      (Proceeds.expect _ _).bind fun _ => .pure _
  case map => exact ih.mapEntries fun r => by have := h r.1; omega
  case operator => exact (Proceeds.complainAt t _).bind fun _ => .fault

end ExpressionLevel

theorem expressionsProceed (depth : Nat) : ExpressionsProceed depth := by
  induction depth with
  | zero =>
    -- without levels there is no room for any token, so nothing is claimed
    have none : ∀ {n k : Nat} {room : Prop}, (room → 16 * n + (k + 1) ≤ 0) → ¬room :=
      fun h r => by have := h r; omega
    exact
      { expression := fun h => .outOfLevels (none h)
        assignment := fun h => .outOfLevels (none h)
        choice := fun h => .outOfLevels (none h)
        tier := fun t h => .outOfLevels fun r => by
          have := h r
          cases t <;> simp [Tier.levels] at this
        unary := fun h => .outOfLevels (none h)
        postfixed := fun h => .outOfLevels (none h)
        arguments := fun _ h => .outOfLevels (none h)
        subscript := fun _ _ h => .outOfLevels (none h)
        primary := fun h => .outOfLevels (none h)
        mapEntries := fun h => .outOfLevels (none h) }
  | succ depth ih =>
    exact
      { expression := fun h => by
          rw [expression]
          exact ih.assignment fun r => by have := h r; omega
        assignment := assignment_proceeds ih
        choice := choice_proceeds ih
        tier := tier_proceeds ih
        unary := unary_proceeds ih
        postfixed := postfixed_proceeds ih
        arguments := arguments_proceeds ih
        subscript := subscript_proceeds ih
        primary := primary_proceeds ih
        mapEntries := mapEntries_proceeds ih }

/-! ## Contracts -/

theorem clauseItems_proceeds {ends : List Token.Kind} {condition : ParseM Expr} (rounds : Nat) :
    ∀ {n : Nat} {room : Prop}, Proceeds n room condition →
      Proceeds n room (clauseItems ends condition rounds) := by
  induction rounds with
  | zero => exact fun _ => .pure _
  | succ rounds ih =>
    intro n room h
    refine (Proceeds.messageNext ends).bind fun isMessage => ?_
    split
    · exact .accept (fun t => .pure _) (.pure _)
    · exact h.bind fun first => .accepted ((ih h.fewer).bind fun _ => .pure _) (.pure _)

theorem clauses_proceeds (ends : List Token.Kind) {depth n : Nat} {room : Prop}
    (h : room → 16 * n + 13 ≤ depth) : Proceeds n room (clauses ends depth) := by
  cases depth with
  | zero => exact .outOfLevels fun r => by have := h r; omega
  | succ depth =>
    rw [clauses]
    refine Proceeds.total.bind fun m => (clauseItems_proceeds (m + 1)
      ((expressionsProceed depth).expression fun r => by have := h r; omega)).bind fun found => ?_
    obtain ⟨conditions, message⟩ := found
    cases conditions with
    | cons e es => exact .pure _
    | nil =>
      cases message with
      | none => exact .pure _
      | some t => exact (Proceeds.complainAt t _).bind fun _ => .fault

theorem functionClauses_proceeds (kind : Token.Kind) (word : String) (ends : List Token.Kind)
    {depth n : Nat} {room : Prop} (h : room → 16 * n + 13 ≤ depth) :
    Proceeds n room (functionClauses kind word ends depth) :=
  .accepted ((Proceeds.expect _ _).bind fun _ =>
    clauses_proceeds ends fun r => by have := h r.1; omega) (.pure _)

/-! ## Statements -/

section Simple

variable {depth n : Nat} {room : Prop}

theorem varDeclaration_proceeds (h : room → 16 * n + 13 ≤ depth) :
    Proceeds n room (varDeclaration depth) := by
  cases depth with
  | zero => exact .outOfLevels fun r => by have := h r; omega
  | succ depth =>
    rw [varDeclaration]
    exact (Proceeds.expect _ _).bind fun name =>
      (Proceeds.following ((expressionsProceed depth).expression fun r => by
        have := h r.1; omega)).bind fun value => (Proceeds.expect _ _).bind fun _ => .pure _

theorem expressionStatement_proceeds (h : room → 16 * n + 13 ≤ depth) :
    Proceeds n room (expressionStatement depth) := by
  cases depth with
  | zero => exact .outOfLevels fun r => by have := h r; omega
  | succ depth =>
    rw [expressionStatement]
    exact ((expressionsProceed depth).expression fun r => by have := h r; omega).bind fun value =>
      (Proceeds.expect _ _).bind fun _ => .pure _

theorem printStatement_proceeds (h : room → 16 * n + 13 ≤ depth) :
    Proceeds n room (printStatement depth) := by
  cases depth with
  | zero => exact .outOfLevels fun r => by have := h r; omega
  | succ depth =>
    rw [printStatement]
    exact ((expressionsProceed depth).expression fun r => by have := h r; omega).bind fun value =>
      (Proceeds.expect _ _).bind fun _ => .pure _

theorem leaveStatement_proceeds (context : Context) (keyword : Token) :
    Proceeds n room (leaveStatement context keyword) :=
  (Proceeds.expect _ _).bind fun _ => (Proceeds.complainUnless _ _ _).bind fun _ => .pure _

theorem yieldStatement_proceeds (context : Context) (keyword : Token)
    (h : room → 16 * n + 13 ≤ depth) : Proceeds n room (yieldStatement context keyword depth) := by
  cases depth with
  | zero => exact .outOfLevels fun r => by have := h r; omega
  | succ depth =>
    rw [yieldStatement]
    exact (Proceeds.complainUnless _ _ _).bind fun _ =>
      (Proceeds.itemUnless ((expressionsProceed depth).expression fun r => by
        have := h r; omega)).bind fun value => (Proceeds.expect _ _).bind fun _ => .pure _

theorem contractStatement_proceeds (kind : ContractKind) (place : Place)
    (h : room → 16 * n + 14 ≤ depth) : Proceeds n room (contractStatement kind place depth) := by
  cases depth with
  | zero => exact .outOfLevels fun r => by have := h r; omega
  | succ depth =>
    rw [contractStatement]
    exact (Proceeds.expect _ _).bind fun _ =>
      (clauses_proceeds _ fun r => by have := h r; omega).bind fun found =>
        (Proceeds.expect _ _).bind fun _ => .pure _

theorem loadStatement_proceeds : Proceeds n room loadStatement :=
  (Proceeds.expect _ _).bind fun _ => (Proceeds.following (Proceeds.expect _ _)).bind fun _ =>
    (Proceeds.expect _ _).bind fun _ => .pure _

theorem loopStart_proceeds (h : room → 16 * n + 13 ≤ depth) : Proceeds n room (loopStart depth) :=
  .accepted (.pure none) (.accepted
    ((varDeclaration_proceeds fun r => by have := h r.1; omega).bind fun s => .pure (some s))
    ((expressionStatement_proceeds h).bind fun s => .pure (some s)))

theorem signature_proceeds (h : room → 16 * n + 13 ≤ depth) : Proceeds n room (signature depth) :=
  (Proceeds.expect _ _).bind fun _ => (Proceeds.expect _ _).bind fun _ =>
    (Proceeds.itemsUntil (fun _ _ count => .limitCount _ count) (Proceeds.expect _ _)).bind fun _ =>
    (Proceeds.expect _ _).bind fun _ => (functionClauses_proceeds _ _ _ h).bind fun _ =>
    (functionClauses_proceeds _ _ _ h).bind fun _ => (Proceeds.expect _ _).bind fun _ => .pure _

end Simple

theorem steady_declaration (context : Context) (depth : Nat) : Steady (declaration context depth) :=
  ((statementsGrasp (Grammar.not_startsWith_nil .kwElse) depth).declaration 0 context).steady

/-- The productions of statements at one number of levels. -/
structure StatementsProceed (depth : Nat) : Prop where
  declaration : ∀ {n room} context, (room → 16 * n + 15 ≤ depth) →
    ProceedsOnward n room (declaration context depth)
  function : ∀ {n room} context, (room → 16 * n + 17 ≤ depth) →
    Proceeds n room (function context depth)
  testStatement : ∀ {n room} context, (room → 16 * n + 15 ≤ depth) →
    Proceeds n room (testStatement context depth)
  statement : ∀ {n room} context, (room → 16 * n + 14 ≤ depth) →
    Proceeds n room (statement context depth)
  block : ∀ {n room} context, (room → 16 * n + 16 ≤ depth) → Proceeds n room (block context depth)
  branch : ∀ {n room} context, (room → 16 * n + 15 ≤ depth) → Proceeds n room (branch context depth)
  loopBody : ∀ {n room} context, (room → 16 * n + 15 ≤ depth) →
    Proceeds n room (loopBody context depth)
  whileLoop : ∀ {n room} context, (room → 16 * n + 16 ≤ depth) →
    Proceeds n room (whileLoop context depth)
  forStatement : ∀ {n room} context, (room → 16 * n + 16 ≤ depth) →
    Proceeds n room (forStatement context depth)

/-- Inside braces a declaration is read only where a token is left. -/
theorem statementsUntilBrace_proceeds {one : ParseM (Option Stmt)} (steady : Steady one) {n : Nat}
    {room : Prop} (h : ProceedsOnward n room one) (rounds : Nat) :
    Proceeds n room (statementsUntilBrace one rounds) := by
  induction rounds with
  | zero => exact .pure []
  | succ rounds ih =>
    refine .current?Onward (.pure []) fun t => ?_
    show ProceedsOnward n room (if t.kind == .rightBrace then pure [] else _)
    split
    · exact (Proceeds.pure []).onward
    · exact h.bind steady fun first => ih.bind fun rest => .pure _

section StatementLevel

variable {depth n : Nat} {room : Prop} (ih : StatementsProceed depth) (context : Context)
include ih

theorem block_proceeds (h : room → 16 * n + 16 ≤ depth + 1) :
    Proceeds n room (block context (depth + 1)) := by
  rw [block]
  exact Proceeds.total.bind fun m => (statementsUntilBrace_proceeds (steady_declaration context depth)
    (ih.declaration context fun r => by have := h r; omega) m).bind fun body =>
      (Proceeds.expect _ _).bind fun _ => .pure body

theorem function_proceeds (h : room → 16 * n + 17 ≤ depth + 1) :
    Proceeds n room (function context (depth + 1)) := by
  rw [function]
  exact (signature_proceeds fun r => by have := h r; omega).bind fun _ =>
    (ih.block _ fun r => by have := h r; omega).bind fun _ => .pure _

theorem testStatement_proceeds (h : room → 16 * n + 15 ≤ depth + 1) :
    Proceeds n room (testStatement context (depth + 1)) := by
  rw [testStatement]
  exact (Proceeds.expect _ _).bind fun _ =>
    (ih.statement _ fun r => by have := h r; omega).bind fun _ => .pure _

theorem branch_proceeds (h : room → 16 * n + 15 ≤ depth + 1) :
    Proceeds n room (branch context (depth + 1)) := by
  have body : Proceeds n room (statement context depth) :=
    ih.statement context fun r => by have := h r; omega
  rw [branch]
  exact (Proceeds.expect _ _).bind fun _ =>
    ((expressionsProceed depth).expression fun r => by have := h r; omega).bind fun _ =>
    (Proceeds.expect _ _).bind fun _ => body.bind fun _ =>
    (Proceeds.following body.fewer).bind fun _ => .pure _

theorem whileLoop_proceeds (h : room → 16 * n + 16 ≤ depth + 1) :
    Proceeds n room (whileLoop context (depth + 1)) := by
  rw [whileLoop]
  exact (Proceeds.expect _ _).bind fun _ =>
    ((expressionsProceed depth).expression fun r => by have := h r; omega).bind fun _ =>
    (Proceeds.expect _ _).bind fun _ =>
    (ih.loopBody context fun r => by have := h r; omega).bind fun _ => .pure _

theorem forStatement_proceeds (h : room → 16 * n + 16 ≤ depth + 1) :
    Proceeds n room (forStatement context (depth + 1)) := by
  have item : ∀ close, Proceeds n room (itemUnless close (expression depth)) := fun close =>
    .itemUnless ((expressionsProceed depth).expression fun r => by have := h r; omega)
  rw [forStatement]
  exact (Proceeds.expect _ _).bind fun _ =>
    (loopStart_proceeds fun r => by have := h r; omega).bind fun _ => (item _).bind fun _ =>
    (Proceeds.expect _ _).bind fun _ => (item _).bind fun _ => (Proceeds.expect _ _).bind fun _ =>
    (ih.loopBody context fun r => by have := h r; omega).bind fun _ => .pure _

/-- Whatever follows a keyword or a brace has sixteen levels more. -/
theorem statement_proceeds (h : room → 16 * n + 14 ≤ depth + 1) :
    Proceeds n room (statement context (depth + 1)) := by
  rw [statement]
  exact .accepted (printStatement_proceeds fun r => by have := h r.1; omega) <|
    .accepted ((ih.block context fun r => by have := h r.1; omega).bind fun body => .pure _) <|
    .accepted (ih.branch context fun r => by have := h r.1; omega) <|
    .accepted (ih.whileLoop context fun r => by have := h r.1; omega) <|
    .accepted (ih.forStatement context fun r => by have := h r.1; omega) <|
    .accept (fun keyword => leaveStatement_proceeds context keyword) <|
    .accept (fun keyword => yieldStatement_proceeds context keyword fun r => by
      have := h r.1; omega) <|
    .accept (fun keyword => contractStatement_proceeds .assertion keyword.place fun r => by
      have := h r.1; omega) <|
    .accept (fun keyword => contractStatement_proceeds .check keyword.place fun r => by
      have := h r.1; omega) <|
    .accepted loadStatement_proceeds
      (expressionStatement_proceeds fun r => by have := h r; omega)

theorem declaration_proceeds (h : room → 16 * n + 15 ≤ depth + 1) :
    ProceedsOnward n room (declaration context (depth + 1)) := by
  rw [declaration]
  exact .recovering <|
    .accepted ((varDeclaration_proceeds fun r => by have := h r.1; omega).bind fun s => .pure _) <|
    .accepted ((ih.function context fun r => by have := h r.1; omega).bind fun s => .pure _) <|
    .accepted ((ih.testStatement context fun r => by have := h r.1; omega).bind fun s => .pure _)
      ((ih.statement context fun r => by have := h r; omega).bind fun s => .pure _)

end StatementLevel

theorem statementsProceed (depth : Nat) : StatementsProceed depth := by
  induction depth with
  | zero =>
    -- without levels there is no room for any token, so nothing is claimed
    have none : ∀ {n k : Nat} {room : Prop}, (room → 16 * n + (k + 1) ≤ 0) → ¬room :=
      fun h r => by have := h r; omega
    exact
      { declaration := fun _ h => (Proceeds.outOfLevels (none h)).onward
        function := fun _ h => .outOfLevels (none h)
        testStatement := fun _ h => .outOfLevels (none h)
        statement := fun _ h => .outOfLevels (none h)
        block := fun _ h => .outOfLevels (none h)
        branch := fun _ h => .outOfLevels (none h)
        loopBody := fun _ h => .outOfLevels (none h)
        whileLoop := fun _ h => .outOfLevels (none h)
        forStatement := fun _ h => .outOfLevels (none h) }
  | succ depth ih =>
    exact
      { declaration := declaration_proceeds ih
        function := function_proceeds ih
        testStatement := testStatement_proceeds ih
        statement := statement_proceeds ih
        block := block_proceeds ih
        branch := branch_proceeds ih
        loopBody := fun context h => by
          rw [loopBody]
          exact ih.statement _ fun r => by have := h r; omega
        whileLoop := whileLoop_proceeds ih
        forStatement := forStatement_proceeds ih }

/-! ## Every declaration takes a token -/

/-- Every result of a production has taken a token, whatever was reported on the way. -/
def Advances (p : ParseM α) : Prop :=
  ∀ s a s', p s = .ok a s' → s'.rest.length < s.rest.length

namespace Advances

theorem stop (e : Stop) : Advances (throw e : ParseM α) := by
  rintro s a s' ⟨⟩

theorem bindFirst {x : ParseM α} {f : α → ParseM β} (h : Advances x)
    (hf : ∀ a, Proceeds 0 False (f a)) : Advances (x >>= f) := by
  intro s b s' run
  cases first : x s with
  | ok a s₁ =>
    rw [bind_run_ok first] at run
    exact Nat.lt_of_le_of_lt ((hf a).rest_le run) (h s a s₁ first)
  | error e s₁ =>
    rw [bind_run_error first] at run
    cases run

theorem bindLast {x : ParseM α} {f : α → ParseM β} (hx : Proceeds 0 False x)
    (h : ∀ a, Advances (f a)) : Advances (x >>= f) := by
  intro s b s' run
  cases first : x s with
  | ok a s₁ =>
    rw [bind_run_ok first] at run
    exact Nat.lt_of_lt_of_le (h a s₁ b s' run) (hx.rest_le first)
  | error e s₁ =>
    rw [bind_run_error first] at run
    cases run

/-- Where the next token is taken, what follows need not take another. -/
theorem acceptMap {f : Token → Option α} {g : Option α → ParseM β}
    (hsome : ∀ a, Proceeds 0 False (g (some a))) (hnone : Advances (g none)) :
    Advances (Parser.acceptMap f >>= g) := by
  intro s b s' run
  rcases acceptMap_cases f s with ⟨t, rest, a, s₁, hs, -, found, hrest, -⟩ | ⟨-, found⟩
  · rw [bind_run_ok found] at run
    have le := (hsome a).rest_le run
    rw [hs, List.length_cons]
    rw [hrest] at le
    omega
  · rw [bind_run_ok found] at run
    exact hnone s b s' run

theorem accept {kind : Token.Kind} {g : Option Token → ParseM β}
    (hsome : ∀ t, Proceeds 0 False (g (some t))) (hnone : Advances (g none)) :
    Advances (Parser.accept kind >>= g) :=
  acceptMap hsome hnone

theorem accepted {kind : Token.Kind} {g : Bool → ParseM β} (hyes : Proceeds 0 False (g true))
    (hno : Advances (g false)) : Advances (Parser.accepted kind >>= g) := by
  rw [accepted_bind]
  exact accept (fun _ => hyes) hno

theorem fail (complaint : Complaint) : Advances (Parser.fail complaint : ParseM α) :=
  bindLast (.complain complaint) fun _ => stop .fault

theorem expect (kind : Token.Kind) (what : String) : Advances (Parser.expect kind what) :=
  accept (fun t => .pure t) (fail _)

end Advances

/-- An expression statement ends with a semicolon. -/
theorem expressionStatement_advances (depth : Nat) : Advances (expressionStatement depth) := by
  cases depth with
  | zero => exact .stop .depth
  | succ depth =>
    rw [expressionStatement]
    exact .bindLast ((expressionsProceed depth).expression False.elim) fun _ =>
      (Advances.expect _ _).bindFirst fun _ => .pure _

/-- Every other statement begins with a word or a brace. -/
theorem statement_advances (context : Context) (depth : Nat) :
    Advances (statement context depth) := by
  cases depth with
  | zero => exact .stop .depth
  | succ depth =>
    have parts := statementsProceed depth
    rw [statement]
    exact .accepted (printStatement_proceeds False.elim) <|
      .accepted ((parts.block context False.elim).bind fun body => .pure _) <|
      .accepted (parts.branch context False.elim) <|
      .accepted (parts.whileLoop context False.elim) <|
      .accepted (parts.forStatement context False.elim) <|
      .accept (fun keyword => leaveStatement_proceeds context keyword) <|
      .accept (fun keyword => yieldStatement_proceeds context keyword False.elim) <|
      .accept (fun keyword => contractStatement_proceeds .assertion keyword.place False.elim) <|
      .accept (fun keyword => contractStatement_proceeds .check keyword.place False.elim) <|
      .accepted loadStatement_proceeds (expressionStatement_advances depth)

/-- After a fault at least one token is dropped, or all are used up. -/
theorem recovering_advances {p : ParseM (Option Stmt)} (h : Advances p) (proceeds : Proceeds 0 False p)
    {s s' : State} {r : Option Stmt} (left : s.rest ≠ []) (run : recovering p s = .ok r s') :
    s'.rest.length < s.rest.length := by
  rw [recovering_run] at run
  cases hp : p s with
  | ok r' s₁ =>
    rw [hp] at run
    cases run
    exact h s _ _ hp
  | error e s₁ =>
    rw [hp] at run
    cases e with
    | depth => cases run
    | fault =>
      cases run
      have le := proceeds.error_rest_le hp
      have pos := List.length_pos_iff.mpr left
      show (recover s₁.rest).length < s.rest.length
      cases hrest : s₁.rest with
      | nil => exact pos
      | cons t rest =>
        have dropped := length_recover_lt t rest
        rw [hrest] at le
        omega

/-- A declaration that ends takes a token, whether with a statement, without one, or after a
fault. -/
theorem declaration_advances {context : Context} {depth : Nat} {s s' : State} {r : Option Stmt}
    (left : s.rest ≠ []) (run : declaration context depth s = .ok r s') :
    s'.rest.length < s.rest.length := by
  cases depth with
  | zero => cases run
  | succ depth =>
    have parts := statementsProceed depth
    rw [declaration] at run
    refine recovering_advances ?advances ?proceeds left run
    case advances =>
      exact .accepted ((varDeclaration_proceeds False.elim).bind fun s => .pure _) <|
        .accepted ((parts.function context False.elim).bind fun s => .pure _) <|
        .accepted ((parts.testStatement context False.elim).bind fun s => .pure _)
          ((statement_advances context depth).bindFirst fun s => .pure _)
    case proceeds =>
      exact .accepted ((varDeclaration_proceeds fun none => none.1.elim).bind fun s => .pure _) <|
        .accepted ((parts.function context fun none => none.1.elim).bind fun s => .pure _) <|
        .accepted ((parts.testStatement context fun none => none.1.elim).bind fun s => .pure _)
          ((parts.statement context False.elim).bind fun s => .pure _)

/-- A fault does not leave a declaration: it is recovered from. -/
theorem declaration_ends (context : Context) (depth : Nat) (s : State) :
    (∃ r s', declaration context depth s = .ok r s') ∨
      ∃ s', declaration context depth s = .error .depth s' := by
  cases depth with
  | zero => exact .inr ⟨s, rfl⟩
  | succ depth =>
    rw [declaration, recovering_run]
    split
    · exact .inl ⟨_, _, rfl⟩
    · exact .inl ⟨_, _, rfl⟩
    · exact .inr ⟨_, rfl⟩

/-- With sixteen levels for every token, and those of two more, no declaration uses them up. -/
theorem declaration_endures {context : Context} {depth : Nat} {s s' : State}
    (enough : 16 * (s.rest.length + 2) ≤ depth) : declaration context depth s ≠ .error .depth s' := by
  have onward : ProceedsOnward (s.rest.length + 1) True (declaration context depth) :=
    (statementsProceed depth).declaration context fun _ => by omega
  exact onward.endures trivial s s' (Nat.lt_succ_self _)

/-! ## Loops over declarations

The two loops are counted down. Where every declaration takes a token, one round for every token
that is left is enough, so counting them changes nothing. -/

/-- Where a token is left, every result has taken one. -/
def TakesOnward (one : ParseM (Option Stmt)) : Prop :=
  ∀ s r s', s.rest ≠ [] → one s = .ok r s' → s'.rest.length < s.rest.length

theorem declaration_takesOnward (context : Context) (depth : Nat) :
    TakesOnward (declaration context depth) :=
  fun _ _ _ left run => declaration_advances left run

theorem bind_run_congr {x y : ParseM α} {s s' : State} (f : α → ParseM β) (h : x s = y s') :
    (x >>= f) s = (y >>= f) s' := by
  show EStateM.bind x f s = EStateM.bind y f s'
  simp only [EStateM.bind, h]

theorem statementsUntilBrace_nil {one : ParseM (Option Stmt)} {rounds : Nat} {s : State}
    (hs : s.rest = []) : statementsUntilBrace one rounds s = .ok [] s := by
  obtain ⟨ts, total, bound, ending, reports⟩ := s
  cases hs
  cases rounds <;> rfl

theorem statementsUntilBrace_cons (one : ParseM (Option Stmt)) (rounds : Nat) {s : State} {t : Token}
    {rest : List Token} (hs : s.rest = t :: rest) :
    statementsUntilBrace one (rounds + 1) s =
      (if t.kind == .rightBrace then pure [] else
        one >>= fun first => statementsUntilBrace one rounds >>= fun others =>
          pure (first.toList ++ others) : ParseM (List Stmt)) s := by
  obtain ⟨ts, total, bound, ending, reports⟩ := s
  cases hs
  rfl

/-- The loop of a block misses no round. -/
theorem statementsUntilBrace_rounds {one : ParseM (Option Stmt)} (takes : TakesOnward one)
    (rounds : Nat) : ∀ (more : Nat) (s : State), s.rest.length ≤ rounds →
      statementsUntilBrace one (rounds + more) s = statementsUntilBrace one rounds s := by
  induction rounds with
  | zero =>
    intro more s hs
    have none : s.rest = [] := List.length_eq_zero_iff.mp (Nat.le_zero.mp hs)
    rw [statementsUntilBrace_nil none, statementsUntilBrace_nil none]
  | succ rounds ih =>
    intro more s hs
    cases hrest : s.rest with
    | nil => rw [statementsUntilBrace_nil hrest, statementsUntilBrace_nil hrest]
    | cons t rest =>
      rw [Nat.add_right_comm, statementsUntilBrace_cons one _ hrest,
        statementsUntilBrace_cons one _ hrest]
      split
      · rfl
      · cases first : one s with
        | error e s₁ => rw [bind_run_error first, bind_run_error first]
        | ok r s₁ =>
          -- the declaration took a token, so there is a round for each that is left
          have shorter := takes s r s₁ (by rw [hrest]; exact List.cons_ne_nil t rest) first
          rw [bind_run_ok first, bind_run_ok first]
          exact bind_run_congr _ (ih more s₁ (by omega))

/-- The loop of a program misses no round either. -/
theorem declarations_rounds {one : ParseM (Option Stmt)} (takes : TakesOnward one)
    (rounds : Nat) : ∀ (more : Nat) (s : State), s.rest.length ≤ rounds →
      declarations one (rounds + more) s = declarations one rounds s := by
  induction rounds with
  | zero =>
    intro more s hs
    have none : s.rest = [] := List.length_eq_zero_iff.mp (Nat.le_zero.mp hs)
    rw [declarations_nil none, declarations_nil none]
  | succ rounds ih =>
    intro more s hs
    cases hrest : s.rest with
    | nil => rw [declarations_nil hrest, declarations_nil hrest]
    | cons t rest =>
      obtain ⟨ts, total, bound, ending, reports⟩ := s
      cases hrest
      rw [Nat.add_right_comm]
      rcases attempting_run one ⟨t :: rest, total, bound, ending, reports⟩ with
        ⟨r, s₁, first, run⟩ | ⟨e, s₁, s₂, _, _, run, -⟩
      -- a declaration takes a token, so the rounds that are left are still enough
      · have shorter := takes _ r s₁ (List.cons_ne_nil t rest) first
        have fewer : s₁.rest.length ≤ rounds := Nat.le_of_lt_succ (Nat.lt_of_lt_of_le shorter hs)
        obtain ⟨p, s', read⟩ := declarations_total one rounds s₁
        have step : ∀ k, declarations one k s₁ = .ok p s' →
            declarations one (k + 1) ⟨t :: rest, total, bound, ending, reports⟩
              = .ok (r.toList ++ p) s' := by
          intro k others
          rw [declarations]
          exact (bind_run_ok run).trans (bind_run_ok others)
        rw [step _ ((ih more s₁ fewer).trans read), step _ read]
      · have step : ∀ k, declarations one (k + 1) ⟨t :: rest, total, bound, ending, reports⟩
            = .ok [] s₂ := by
          intro k
          rw [declarations]
          exact bind_run_ok run
        rw [step, step]

/-- The loop of a program is a walk. -/
theorem declarations_walks {one : ParseM (Option Stmt)} {n : Nat} {room : Prop}
    (h : ProceedsOnward n room one) (rounds : Nat) :
    ∀ s, ∃ looks, Walk (declarations one rounds) s looks (declarations one rounds s) := by
  induction rounds with
  | zero => exact fun s => ⟨_, .done _ s⟩
  | succ rounds ih =>
    intro s
    rw [declarations]
    refine Proceeds.walks_bind ⟨_, .look s⟩ fun next s₁ run => ?_
    cases run
    cases hs : s.rest with
    | nil => exact ⟨_, .done _ _⟩
    | cons t rest =>
      have left : s.rest ≠ [] := by rw [hs]; exact List.cons_ne_nil t rest
      refine Proceeds.walks_bind (h.walks_attempting s left) fun found s₁ _ => ?_
      cases found with
      | none => exact ⟨_, .done _ _⟩
      | some r => exact Proceeds.walks_bind (ih s₁) fun p s₂ _ => ⟨_, .done _ _⟩

/-- The loop of a program ends when no token is left, or where a declaration gives up. -/
theorem declarations_end {one : ParseM (Option Stmt)} (takes : TakesOnward one) (rounds : Nat) :
    ∀ s p s', s.rest.length ≤ rounds → declarations one rounds s = .ok p s' →
      s'.rest = [] ∨ ∃ s₁ e s₂ d, s₁.rest.length ≤ s.rest.length ∧ one s₁ = .error e s₂ ∧
        s'.reports = d :: s₂.reports ∧ d.complaint = .nestsTooDeeply := by
  induction rounds with
  | zero =>
    intro s p s' hs run
    cases run
    exact .inl (List.length_eq_zero_iff.mp (Nat.le_zero.mp hs))
  | succ rounds ih =>
    intro s p s' hs run
    cases hrest : s.rest with
    | nil =>
      rw [declarations_nil hrest] at run
      cases run
      exact .inl hrest
    | cons t rest =>
      rcases declarations_run one rounds hrest with
        ⟨r, s₁, first, others⟩ | ⟨e, s₁, s₂, d, first, all, hreports, hd⟩
      -- a declaration takes a token, so the loop cannot end for want of rounds
      · have shorter := takes s r s₁ (by rw [hrest]; exact List.cons_ne_nil t rest) first
        obtain ⟨q, s₂, second⟩ := declarations_total one rounds s₁
        have whole := others q s₂ second
        rw [run] at whole
        cases whole
        rw [← hrest]
        refine (ih s₁ q s' (by omega) second).imp id ?_
        rintro ⟨s₃, e, s₄, d, le, stopped, rest⟩
        exact ⟨s₃, e, s₄, d, by omega, stopped, rest⟩
      · rw [run] at all
        cases all
        exact .inr ⟨s, e, s₁, d, Nat.le_of_eq (by rw [hrest]), first, hreports, hd⟩

/-- A declaration that starts where a token is left takes at least one, unless the levels are used
up; and sixteen levels for every token are enough. -/
theorem declaration_progresses (context : Context) (depth : Nat) {s : State} (left : s.rest ≠ []) :
    (∃ r s', declaration context depth s = .ok r s' ∧ s'.rest <:+ s.rest ∧ s.cursor < s'.cursor ∧
      s'.cursor ≤ s.total) ∨
    (depth < 16 * (s.rest.length + 2) ∧ ∃ s', declaration context depth s = .error .depth s') := by
  rcases declaration_ends context depth s with ⟨r, s', run⟩ | ⟨s', run⟩
  · refine .inl ⟨r, s', run, ?_⟩
    have onward : ProceedsOnward 0 False (declaration context depth) :=
      (statementsProceed depth).declaration context False.elim
    obtain ⟨looks, walk⟩ := onward.walks s left
    rw [run] at walk
    have forward : Forward s looks s' := walk.forward
    have shorter := declaration_advances left run
    have before := s.cursor_add_length
    have after := s'.cursor_add_length
    have total := forward.total
    exact ⟨forward.rest, by omega, by omega⟩
  · refine .inr ⟨?_, s', run⟩
    apply Nat.lt_of_not_le
    intro enough
    exact declaration_endures enough run

end Parser

/-- Parsing makes progress and stays in range, whatever the tokens are. Every declaration that
starts where a token is left takes at least one, whether it ends with a statement, without one or
with a recovery; only running out of levels keeps it from that, and sixteen levels for every token
are enough. The whole parse is a sequence of elementary steps that only moves forward and looks at
nothing but the tokens and the end. It ends at the end, or where a declaration ran out of levels,
which is reported. The loops over declarations need no more rounds than there are tokens left. -/
theorem Program.parse_progresses (keepTests : Bool) (levels : Nat) (input : TokenList) :
    (∀ (context : Parser.Context) (s : Parser.State), s.rest ≠ [] →
      (∃ r s', Parser.declaration context levels s = .ok r s' ∧ s'.rest <:+ s.rest ∧
        s.cursor < s'.cursor ∧ s'.cursor ≤ s.total) ∨
      (levels < 16 * (s.rest.length + 2) ∧
        ∃ s', Parser.declaration context levels s = .error .depth s')) ∧
    (∃ program s' looks,
      Parser.Walk (Parser.declarations (Parser.declaration (Parser.Context.top keepTests) levels)
        input.tokens.length) (Parser.State.start input) looks (.ok program s') ∧
      Parser.declarations (Parser.declaration (Parser.Context.top keepTests) levels)
        input.tokens.length (Parser.State.start input) = .ok program s' ∧
      Parser.Forward (Parser.State.start input) looks s' ∧
      (s'.cursor = input.tokens.length ∨ levels < 16 * (input.tokens.length + 2) ∧
        ∃ d ∈ s'.reports, d.complaint = .nestsTooDeeply) ∧
      (levels = Parser.nesting → Program.parse keepTests input = (program, s'.reports.reverse))) ∧
    (∀ (context : Parser.Context) (rounds : Nat) (s : Parser.State), s.rest.length ≤ rounds →
      Parser.statementsUntilBrace (Parser.declaration context levels) rounds s
        = Parser.statementsUntilBrace (Parser.declaration context levels) s.rest.length s ∧
      Parser.declarations (Parser.declaration context levels) rounds s
        = Parser.declarations (Parser.declaration context levels) s.rest.length s) := by
  refine ⟨fun context s left => Parser.declaration_progresses context levels left, ?whole, ?rounds⟩
  case whole =>
    obtain ⟨program, s', run⟩ := Parser.declarations_total
      (Parser.declaration (Parser.Context.top keepTests) levels) input.tokens.length
      (Parser.State.start input)
    have onward : Parser.ProceedsOnward 0 False
        (Parser.declaration (Parser.Context.top keepTests) levels) :=
      (Parser.statementsProceed levels).declaration _ False.elim
    obtain ⟨looks, walk⟩ :=
      Parser.declarations_walks onward input.tokens.length (Parser.State.start input)
    rw [run] at walk
    have forward : Parser.Forward (Parser.State.start input) looks s' := walk.forward
    refine ⟨program, s', looks, walk, run, forward, ?_, ?_⟩
    · rcases Parser.declarations_end
        (Parser.declaration_takesOnward (Parser.Context.top keepTests) levels) input.tokens.length
        (Parser.State.start input) program s' (Nat.le_refl _) run with
        none | ⟨s₁, e, s₂, d, le, stopped, hreports, hd⟩
      · left
        rw [s'.cursor_eq_total_iff.mpr none, forward.total]
        rfl
      · right
        refine ⟨?_, d, hreports ▸ List.mem_cons_self, hd⟩
        -- what gives up has run out of levels, and it had no more tokens left than there are
        have few : s₁.rest.length ≤ input.tokens.length := le
        rcases Parser.declaration_ends (Parser.Context.top keepTests) levels s₁ with
          ⟨r, s₃, ended⟩ | ⟨s₃, ended⟩
        · rw [stopped] at ended
          cases ended
        · apply Nat.lt_of_not_le
          intro enough
          exact Parser.declaration_endures (by omega) ended
    · rintro rfl
      exact Program.parse_run keepTests input run
  case rounds =>
    intro context rounds s le
    have takes := Parser.declaration_takesOnward context levels
    obtain ⟨more, rfl⟩ := Nat.exists_eq_add_of_le le
    exact ⟨Parser.statementsUntilBrace_rounds takes _ more s (Nat.le_refl _),
      Parser.declarations_rounds takes _ more s (Nat.le_refl _)⟩

end ContractScript
