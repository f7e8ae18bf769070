/-
One program after another.

Every production of expressions repeats its readings where a token is left to look at,
and every production of statements repeats all of them, if no `else` is next in the
sequel. So the declarations of a program are read in the same way when another program
stands behind them, and the program of the tokens of two programs, one after the other, is
the one program followed by the other.
-/
import ContractScript.Proofs.Program.Sequel

set_option autoImplicit false

namespace ContractScript

namespace Parser

open Grammar (StartsWith)

variable {α β : Type} {sequel : List Token} {n : Nat}

/-! ## Parts that may be missing, and repetition -/

namespace Repeats

theorem following {kind : Token.Kind} {x y : ParseM α} (h : Repeats sequel (n - 1) false x y) :
    Repeats sequel n false (Parser.following kind x) (Parser.following kind y) :=
  accepted (h.bind fun a => .pure (some a)) (.pure none)

/-- At the end of its tokens a production may look for a kind that the sequel does not start
with. -/
theorem followingClosed {kind : Token.Kind} {x y : ParseM α} (refused : ¬StartsWith kind sequel)
    (h : Repeats sequel (n - 1) true x y) :
    Repeats sequel n true (Parser.following kind x) (Parser.following kind y) := by
  unfold Parser.following
  rw [accepted_bind, accepted_bind]
  exact acceptMapWithin (f := ofKind kind) (fun _ => h.bind fun a => .pure (some a)) (.pure none)
    fun _ _ _ _ _ _ _ => refuses_ofKind.mpr refused

theorem itemUnless {close : Token.Kind} {x y : ParseM α} (h : Repeats sequel n false x y) :
    Repeats sequel n false (Parser.itemUnless close x) (Parser.itemUnless close y) := by
  refine (check close).bind fun closing => ?_
  split
  · exact .pure none
  · exact h.bind fun a => .pure (some a)

theorem commaSeparated {before : Nat → ParseM Unit} {item : ParseM α}
    (hbefore : ∀ n count, Repeats sequel n false (before count) (before count))
    (hitem : ∀ n, Repeats sequel n false item item) (rounds : Nat) :
    ∀ rounds' count, rounds ≤ rounds' → Repeats sequel rounds false
      (Parser.commaSeparated before item rounds count)
      (Parser.commaSeparated before item rounds' count) := by
  induction rounds with
  | zero => exact fun _ _ _ => noRounds fun s => State.Later.refl s
  | succ rounds ih =>
    intro rounds' count le
    -- the rounds are counted from the number of all tokens, and there are more with a sequel
    obtain ⟨rounds', rfl⟩ := Nat.exists_eq_add_of_lt le
    exact (hbefore _ count).bind fun _ => (hitem _).bind fun a => accepted
      ((ih _ (count + 1) (Nat.le_add_right _ _)).bind fun as => .pure (a :: as)) (.pure [a])

theorem itemsUntil {close : Token.Kind} {before : Nat → ParseM Unit} {item : ParseM α}
    (hbefore : ∀ n count, Repeats sequel n false (before count) (before count))
    (hitem : ∀ n, Repeats sequel n false item item) :
    Repeats sequel n false (Parser.itemsUntil close before item)
      (Parser.itemsUntil close before item) := by
  refine (check close).bind fun closing => ?_
  split
  · exact .pure []
  · exact total fun m m' le => commaSeparated hbefore hitem (m + 1) (m' + 1) 0 (by omega)

end Repeats

/-! ## Expressions -/

theorem operators_repeats {t : Tier} {operand : ParseM Expr}
    (h : ∀ n, Repeats sequel n false operand operand) (rounds : Nat) :
    ∀ rounds' left, rounds ≤ rounds' → Repeats sequel (rounds + 1) false
      (operators t operand rounds left) (operators t operand rounds' left) := by
  induction rounds with
  | zero => exact fun _ _ _ => .noTokens fun s => State.Later.refl s
  | succ rounds ih =>
    intro rounds' left le
    obtain ⟨rounds', rfl⟩ := Nat.exists_eq_add_of_lt le
    exact .acceptMap (fun join => (h _).bind fun right => ih _ _ (Nat.le_add_right _ _)) (.pure left)

theorem qualifiers_repeats (rounds : Nat) : ∀ rounds', rounds ≤ rounds' →
    Repeats sequel (rounds + 1) false (qualifiers rounds) (qualifiers rounds') := by
  induction rounds with
  | zero => exact fun _ _ => .noTokens fun s => State.Later.refl s
  | succ rounds ih =>
    intro rounds' le
    obtain ⟨rounds', rfl⟩ := Nat.exists_eq_add_of_lt le
    exact .accepted ((Grasps.expect _ _).any.bind fun t =>
      (ih _ (Nat.le_add_right _ _)).bind fun names => .pure (t.lexeme :: names)) (.pure [])

theorem suffixes_repeats {call subscript : Expr → Place → ParseM Expr}
    (hcall : ∀ n e p, Repeats sequel n false (call e p) (call e p))
    (hsubscript : ∀ n e p, Repeats sequel n false (subscript e p) (subscript e p)) (rounds : Nat) :
    ∀ rounds' operand, rounds ≤ rounds' → Repeats sequel (rounds + 1) false
      (suffixes call subscript rounds operand) (suffixes call subscript rounds' operand) := by
  induction rounds with
  | zero => exact fun _ _ _ => .noTokens fun s => State.Later.refl s
  | succ rounds ih =>
    intro rounds' operand le
    obtain ⟨rounds', rfl⟩ := Nat.exists_eq_add_of_lt le
    exact .accept (fun t => (hcall _ operand t.place).bind fun _ => ih _ _ (Nat.le_add_right _ _))
      (.accept (fun t => (hsubscript _ operand t.place).bind fun _ =>
        ih _ _ (Nat.le_add_right _ _)) (.pure operand))

theorem assigning_repeats (equals : Token) (target value : Expr) :
    Repeats sequel n false (assigning equals target value) (assigning equals target value) := by
  unfold assigning
  split
  · exact .pure _
  · exact (Repeats.complainAt equals _).bind fun _ => .pure target

/-- The productions of expressions at one number of levels. -/
structure ExpressionsRepeat (sequel : List Token) (depth : Nat) : Prop where
  expression : ∀ n, Repeats sequel n false (expression depth) (expression depth)
  assignment : ∀ n, Repeats sequel n false (assignment depth) (assignment depth)
  choice : ∀ n, Repeats sequel n false (choice depth) (choice depth)
  tier : ∀ n t, Repeats sequel n false (tier depth t) (tier depth t)
  unary : ∀ n, Repeats sequel n false (unary depth) (unary depth)
  postfixed : ∀ n, Repeats sequel n false (postfixed depth) (postfixed depth)
  arguments : ∀ n e, Repeats sequel n false (arguments depth e) (arguments depth e)
  subscript : ∀ n e p, Repeats sequel n false (subscript depth e p) (subscript depth e p)
  primary : ∀ n, Repeats sequel n false (primary depth) (primary depth)
  mapEntries : ∀ n, Repeats sequel n false (mapEntries depth) (mapEntries depth)

section ExpressionLevel

variable {depth : Nat} (ih : ExpressionsRepeat sequel depth) (n)
include ih

theorem assignment_repeats :
    Repeats sequel n false (assignment (depth + 1)) (assignment (depth + 1)) := by
  rw [assignment]
  exact (ih.choice n).bind fun target => .accept
    (fun equals => (ih.assignment _).bind fun value => assigning_repeats equals target value)
    (.pure target)

theorem choice_repeats : Repeats sequel n false (choice (depth + 1)) (choice (depth + 1)) := by
  rw [choice]
  exact (ih.tier n .or).bind fun condition => .accepted
    ((ih.choice _).bind fun _ => (Grasps.expect _ _).any.bind fun _ => (ih.choice _).bind fun _ =>
      .pure _) (.pure condition)

theorem tier_repeats (t : Tier) :
    Repeats sequel n false (tier (depth + 1) t) (tier (depth + 1) t) := by
  have whole : ∀ operand : ParseM Expr, (∀ n, Repeats sequel n false operand operand) →
      Repeats sequel n false (do let left ← operand; operators t operand (← total) left)
        (do let left ← operand; operators t operand (← total) left) :=
    fun operand h => (h n).bind fun left => .total fun m m' le => operators_repeats h m m' left le
  rw [tier]
  cases t.tighter? with
  | some next => exact whole _ fun k => ih.tier k next
  | none => exact whole _ ih.unary

theorem unary_repeats : Repeats sequel n false (unary (depth + 1)) (unary (depth + 1)) := by
  rw [unary]
  exact .acceptMap (fun op => (ih.unary _).bind fun _ => .pure _) (ih.postfixed n)

theorem postfixed_repeats :
    Repeats sequel n false (postfixed (depth + 1)) (postfixed (depth + 1)) := by
  rw [postfixed]
  exact (ih.primary n).bind fun operand => .total fun m m' le =>
    suffixes_repeats (fun k e _ => ih.arguments k e) ih.subscript m m' operand le

theorem arguments_repeats (callee : Expr) :
    Repeats sequel n false (arguments (depth + 1) callee) (arguments (depth + 1) callee) := by
  rw [arguments]
  exact (Repeats.itemsUntil (fun _ count => .limitCount _ count) ih.expression).bind fun _ =>
    (Grasps.expect _ _).any.bind fun _ => .pure _

theorem subscript_repeats (collection : Expr) (bracket : Place) :
    Repeats sequel n false (subscript (depth + 1) collection bracket)
      (subscript (depth + 1) collection bracket) := by
  rw [subscript]
  exact (ih.expression n).bind fun _ => .accepted
    ((ih.expression _).bind fun _ => (Grasps.expect _ _).any.bind fun _ => .pure _)
    ((Grasps.expect _ _).any.bind fun _ => .pure _)

theorem mapEntries_repeats :
    Repeats sequel n false (mapEntries (depth + 1)) (mapEntries (depth + 1)) := by
  rw [mapEntries]
  exact (Repeats.itemsUntil (fun _ _ => .pure ()) fun k => (ih.expression k).bind fun _ =>
    (Grasps.expect _ _).any.bind fun _ => (ih.expression k).bind fun _ => .pure _).bind fun _ =>
    (Grasps.expect _ _).any.bind fun _ => .pure _

theorem primary_repeats : Repeats sequel n false (primary (depth + 1)) (primary (depth + 1)) := by
  rw [primary]
  refine .acceptMap (fun value => .pure _) (.accept (fun name => ?name) (.accepted ?group
    (.accepted ?list (.accepted ?map (.acceptMap (fun t => .giveUp t _) (.fail _))))))
  case name =>
    exact .total fun m m' le => ((qualifiers_repeats m m' le).bind fun _ => .pure _)
  case group => exact (ih.expression _).bind fun _ => (Grasps.expect _ _).any.bind fun _ => .pure _
  case list =>
    exact (Repeats.itemsUntil (fun _ _ => .pure ()) ih.expression).bind fun _ =>
      (Grasps.expect _ _).any.bind fun _ => .pure _
  case map => exact ih.mapEntries _

end ExpressionLevel

theorem expressionsRepeat (depth : Nat) : ExpressionsRepeat sequel depth := by
  induction depth with
  | zero =>
    exact ⟨fun _ => .outOfLevels, fun _ => .outOfLevels, fun _ => .outOfLevels,
      fun _ _ => .outOfLevels, fun _ => .outOfLevels, fun _ => .outOfLevels,
      fun _ _ => .outOfLevels, fun _ _ _ => .outOfLevels, fun _ => .outOfLevels,
      fun _ => .outOfLevels⟩
  | succ depth ih =>
    exact
      { expression := fun n => by
          rw [expression]
          exact ih.assignment n
        assignment := fun n => assignment_repeats n ih
        choice := fun n => choice_repeats n ih
        tier := fun n => tier_repeats n ih
        unary := fun n => unary_repeats n ih
        postfixed := fun n => postfixed_repeats n ih
        arguments := fun n => arguments_repeats n ih
        subscript := fun n => subscript_repeats n ih
        primary := fun n => primary_repeats n ih
        mapEntries := fun n => mapEntries_repeats n ih }

/-! ## Contracts -/

/-- Looking for a message needs two tokens. Where there is only one, it belongs to a condition, and
then none is left. -/
theorem messageNext_repeats {ends : List Token.Kind} {g h : Bool → ParseM β}
    (hg : ∀ b, Repeats sequel n false (g b) (h b)) (takes : Takes (g false)) :
    Repeats sequel n false (messageNext ends >>= g) (messageNext ends >>= h) := by
  have steady : ∀ b, Steady (g b) := fun b => (hg b).steady
  refine ⟨(messageNext_sound 0 ends).steady.bind steady, ?_⟩
  rintro ⟨ts, total, bound, ending, reports⟩ b s₁ ⟨ts', total', bound', ending', reports'⟩ hn run
    quiet left ⟨hts, htotal⟩
  have behind : ts' = ts ++ sequel := hts
  subst behind
  match ts, left.resolve_left Bool.false_ne_true with
  | [], hne =>
    have suffix := ((steady false).of_ok run).rest
    exact absurd (List.suffix_nil.mp suffix) hne
  | [t], hne =>
    -- with more behind it the token could have been a message
    have shorter := takes _ b s₁ run quiet
    exact absurd (List.length_eq_zero_iff.mp (Nat.lt_one_iff.mp shorter)) hne
  | t :: u :: rest, _ => exact (hg _).repeats _ b s₁ _ hn run quiet left ⟨rfl, htotal⟩

theorem clauseItems_repeats {ends : List Token.Kind} {condition : ParseM Expr}
    (h : ∀ n, Repeats sequel n false condition condition) (takes : Takes condition) (rounds : Nat) :
    ∀ rounds', rounds ≤ rounds' → Repeats sequel rounds false (clauseItems ends condition rounds)
      (clauseItems ends condition rounds') := by
  induction rounds with
  | zero => exact fun _ _ => .noRounds fun s => State.Later.refl s
  | succ rounds ih =>
    intro rounds' le
    obtain ⟨rounds', rfl⟩ := Nat.exists_eq_add_of_lt le
    have behind : ∀ first : Expr, Repeats sequel (rounds + 1) false
        (accepted .comma >>= fun more => if more = true then
          clauseItems ends condition rounds >>= fun found => pure (first :: found.1, found.2)
          else pure ([first], none))
        (accepted .comma >>= fun more => if more = true then
          clauseItems ends condition (rounds + rounds') >>= fun found =>
            pure (first :: found.1, found.2)
          else pure ([first], none)) :=
      fun first => .accepted ((ih _ (Nat.le_add_right _ _)).bind fun _ => .pure _) (.pure _)
    refine messageNext_repeats (fun isMessage => ?_)
      (takes.bind (h 0).steady fun first => (behind first).steady)
    cases isMessage with
    | true => exact .accept (fun t => .pure _) (.pure _)
    | false => exact (h _).bind behind

theorem takes_expression (depth : Nat) : Takes (expression depth) :=
  Sound.takes (expressionsSound depth).expression fun _ _ _ h => h.1.first.ne_nil

theorem clauses_repeats (ends : List Token.Kind) (depth : Nat) :
    Repeats sequel n false (clauses ends depth) (clauses ends depth) := by
  cases depth with
  | zero => exact .outOfLevels
  | succ depth =>
    rw [clauses]
    refine .total fun m m' le => (clauseItems_repeats (expressionsRepeat depth).expression
      (takes_expression depth) (m + 1) (m' + 1) (Nat.succ_le_succ le)).bind fun found => ?_
    obtain ⟨conditions, message⟩ := found
    cases conditions with
    | cons e es => exact .pure _
    | nil =>
      cases message with
      | none => exact .pure _
      | some t => exact .giveUp t _

theorem functionClauses_repeats (kind : Token.Kind) (word : String) (ends : List Token.Kind)
    (depth : Nat) : Repeats sequel n false (functionClauses kind word ends depth)
      (functionClauses kind word ends depth) :=
  .accepted ((Grasps.expect _ _).any.bind fun _ => clauses_repeats ends depth) (.pure _)

/-! ## Statements -/

/-- Something of which a token is the end. -/
theorem grasps_last {x y : ParseM α} {f : α → Token → β} {kind : Token.Kind} {what : String}
    (h : Repeats sequel n false x y) :
    Grasps sequel n (do let a ← x; let t ← expect kind what; return f a t)
      (do let a ← y; let t ← expect kind what; return f a t) :=
  .after h fun _ => (Grasps.expect kind what).bind fun _ => .pure _

theorem varDeclaration_grasps (depth : Nat) :
    Grasps sequel n (varDeclaration depth) (varDeclaration depth) := by
  cases depth with
  | zero => exact .outOfLevels
  | succ depth =>
    rw [varDeclaration]
    exact (Grasps.expect _ _).bind fun name =>
      (grasps_last (.following ((expressionsRepeat depth).expression _))).toRepeats

theorem expressionStatement_grasps (depth : Nat) :
    Grasps sequel n (expressionStatement depth) (expressionStatement depth) := by
  cases depth with
  | zero => exact .outOfLevels
  | succ depth =>
    rw [expressionStatement]
    exact grasps_last ((expressionsRepeat depth).expression _)

theorem printStatement_grasps (depth : Nat) :
    Grasps sequel n (printStatement depth) (printStatement depth) := by
  cases depth with
  | zero => exact .outOfLevels
  | succ depth =>
    rw [printStatement]
    exact grasps_last ((expressionsRepeat depth).expression _)

theorem leaveStatement_grasps (context : Context) (keyword : Token) :
    Grasps sequel n (leaveStatement context keyword) (leaveStatement context keyword) :=
  (Grasps.expect _ _).bind fun _ => (Repeats.complainUnless _ _ _).bind fun _ => .pure _

theorem yieldStatement_grasps (context : Context) (keyword : Token) (depth : Nat) :
    Grasps sequel n (yieldStatement context keyword depth) (yieldStatement context keyword depth) := by
  cases depth with
  | zero => exact .outOfLevels
  | succ depth =>
    rw [yieldStatement]
    exact .after (.complainUnless _ _ _) fun _ =>
      grasps_last (.itemUnless ((expressionsRepeat depth).expression _))

theorem contractStatement_grasps (kind : ContractKind) (place : Place) (depth : Nat) :
    Grasps sequel n (contractStatement kind place depth) (contractStatement kind place depth) := by
  cases depth with
  | zero => exact .outOfLevels
  | succ depth =>
    rw [contractStatement]
    exact (Grasps.expect _ _).bind fun _ => (grasps_last (clauses_repeats _ depth)).toRepeats

theorem loadStatement_grasps : Grasps sequel n loadStatement loadStatement :=
  (Grasps.expect _ _).bind fun _ => (grasps_last (.following (Grasps.expect _ _).any)).toRepeats

theorem loopStart_grasps (depth : Nat) : Grasps sequel n (loopStart depth) (loopStart depth) :=
  .accepted (.pure none) (.accepted
    ((varDeclaration_grasps depth).toRepeats.bind fun s => .pure (some s))
    ((expressionStatement_grasps depth).bind fun s => .pure (some s)))

theorem signature_grasps (depth : Nat) : Grasps sequel n (signature depth) (signature depth) :=
  (Grasps.expect _ _).bind fun _ => (Grasps.expect _ _).toRepeats.bind fun _ =>
    (Grasps.after (.itemsUntil (fun _ count => .limitCount _ count) fun _ => (Grasps.expect _ _).any)
      fun _ => .after (Grasps.expect _ _).any fun _ => .after (functionClauses_repeats _ _ _ depth)
        fun _ => grasps_last (functionClauses_repeats _ _ _ depth)).toRepeats

/-- The productions of statements at one number of levels. -/
structure StatementsGrasp (sequel : List Token) (depth : Nat) : Prop where
  declaration : ∀ n context, Grasps sequel n (declaration context depth) (declaration context depth)
  function : ∀ n context, Grasps sequel n (function context depth) (function context depth)
  testStatement : ∀ n context,
    Grasps sequel n (testStatement context depth) (testStatement context depth)
  statement : ∀ n context, Grasps sequel n (statement context depth) (statement context depth)
  block : ∀ n context, Grasps sequel n (block context depth) (block context depth)
  branch : ∀ n context, Grasps sequel n (branch context depth) (branch context depth)
  loopBody : ∀ n context, Grasps sequel n (loopBody context depth) (loopBody context depth)
  whileLoop : ∀ n context, Grasps sequel n (whileLoop context depth) (whileLoop context depth)
  forStatement : ∀ n context,
    Grasps sequel n (forStatement context depth) (forStatement context depth)

theorem statementsUntilBrace_repeats {one : ParseM (Option Stmt)}
    (h : ∀ n, Grasps sequel n one one) (rounds : Nat) : ∀ rounds', rounds ≤ rounds' →
      Repeats sequel (rounds + 1) false (statementsUntilBrace one rounds)
        (statementsUntilBrace one rounds') := by
  induction rounds with
  | zero => exact fun _ _ => .noTokens fun s => State.Later.refl s
  | succ rounds ih =>
    intro rounds' le
    obtain ⟨rounds', rfl⟩ := Nat.exists_eq_add_of_lt le
    refine .current? (fun s => State.Later.refl s) fun t => ?_
    show Repeats sequel _ false (if t.kind == .rightBrace then pure [] else _)
      (if t.kind == .rightBrace then pure [] else _)
    split
    · exact .pure []
    · exact (h _).bindFewer fun _ => (ih _ (Nat.le_add_right _ _)).bind fun _ => .pure _

section StatementLevel

variable {depth : Nat} (ih : StatementsGrasp sequel depth) (n) (context : Context)
include ih

theorem block_grasps : Grasps sequel n (block context (depth + 1)) (block context (depth + 1)) := by
  rw [block]
  exact .total fun m m' le =>
    grasps_last (statementsUntilBrace_repeats (fun k => ih.declaration k context) m m' le)

theorem function_grasps :
    Grasps sequel n (function context (depth + 1)) (function context (depth + 1)) := by
  rw [function]
  exact (signature_grasps depth).bind fun _ => (ih.block _ _).toRepeats.bind fun _ => .pure _

theorem testStatement_grasps :
    Grasps sequel n (testStatement context (depth + 1)) (testStatement context (depth + 1)) := by
  rw [testStatement]
  exact (Grasps.expect _ _).bind fun _ => (ih.statement _ _).toRepeats.bind fun _ => .pure _

theorem whileLoop_grasps :
    Grasps sequel n (whileLoop context (depth + 1)) (whileLoop context (depth + 1)) := by
  rw [whileLoop]
  exact .after (Grasps.expect _ _).any fun _ => .after ((expressionsRepeat depth).expression _)
    fun _ => (Grasps.expect _ _).bind fun _ => (ih.loopBody _ context).toRepeats.bind fun _ => .pure _

theorem forStatement_grasps :
    Grasps sequel n (forStatement context (depth + 1)) (forStatement context (depth + 1)) := by
  have item : ∀ close, Repeats sequel n false (itemUnless close (expression depth))
      (itemUnless close (expression depth)) :=
    fun _ => .itemUnless ((expressionsRepeat depth).expression _)
  rw [forStatement]
  exact .after (Grasps.expect _ _).any fun _ => .after (loopStart_grasps depth).any fun _ =>
    .after (item .semicolon) fun _ => .after (Grasps.expect _ _).any fun _ =>
    .after (item .rightParen) fun _ => (Grasps.expect _ _).bind fun _ =>
    (ih.loopBody _ context).toRepeats.bind fun _ => .pure _

/-- The one production that looks at the token behind a statement. -/
theorem branch_grasps (noElse : ¬StartsWith .kwElse sequel) :
    Grasps sequel n (branch context (depth + 1)) (branch context (depth + 1)) := by
  rw [branch]
  exact .after (Grasps.expect _ _).any fun _ => .after ((expressionsRepeat depth).expression _)
    fun _ => (Grasps.expect _ _).bind fun _ => (ih.statement _ context).toRepeats.bind fun _ =>
    (Repeats.followingClosed noElse (ih.statement _ context).toRepeats).bind fun _ => .pure _

theorem statement_grasps :
    Grasps sequel n (statement context (depth + 1)) (statement context (depth + 1)) := by
  rw [statement]
  exact .accepted (printStatement_grasps depth).toRepeats <|
    .accepted ((ih.block _ context).toRepeats.bind fun body => .pure _) <|
    .accepted (ih.branch _ context).toRepeats <|
    .accepted (ih.whileLoop _ context).toRepeats <|
    .accepted (ih.forStatement _ context).toRepeats <|
    .accept (fun keyword => (leaveStatement_grasps context keyword).toRepeats) <|
    .accept (fun keyword => (yieldStatement_grasps context keyword depth).toRepeats) <|
    .accept (fun keyword => (contractStatement_grasps .assertion keyword.place depth).toRepeats) <|
    .accept (fun keyword => (contractStatement_grasps .check keyword.place depth).toRepeats) <|
    .accepted loadStatement_grasps.toRepeats (expressionStatement_grasps depth)

theorem declaration_grasps :
    Grasps sequel n (declaration context (depth + 1)) (declaration context (depth + 1)) := by
  rw [declaration]
  exact .recovering <|
    .accepted ((varDeclaration_grasps depth).toRepeats.bind fun s => .pure _) <|
    .accepted ((ih.function _ context).toRepeats.bind fun s => .pure _) <|
    .accepted ((ih.testStatement _ context).toRepeats.bind fun s => .pure _)
      ((ih.statement _ context).bind fun s => .pure _)

end StatementLevel

theorem statementsGrasp (noElse : ¬StartsWith .kwElse sequel) (depth : Nat) :
    StatementsGrasp sequel depth := by
  induction depth with
  | zero =>
    exact ⟨fun _ _ => .outOfLevels, fun _ _ => .outOfLevels, fun _ _ => .outOfLevels,
      fun _ _ => .outOfLevels, fun _ _ => .outOfLevels, fun _ _ => .outOfLevels,
      fun _ _ => .outOfLevels, fun _ _ => .outOfLevels, fun _ _ => .outOfLevels⟩
  | succ depth ih =>
    exact
      { declaration := fun n => declaration_grasps n ih
        function := fun n => function_grasps n ih
        testStatement := fun n => testStatement_grasps n ih
        statement := fun n => statement_grasps n ih
        block := fun n => block_grasps n ih
        branch := fun n context => branch_grasps n ih context noElse
        loopBody := fun n context => by
          rw [loopBody]
          exact ih.statement n { context with inLoop := true }
        whileLoop := fun n => whileLoop_grasps n ih
        forStatement := fun n => forStatement_grasps n ih }

/-! ## Programs -/

/-- A quiet round of reading declarations: the first one is read quietly, and then the others. -/
theorem declarations_quiet {one : ParseM (Option Stmt)} (steady : Steady one) {rounds : Nat}
    (steadyRest : Steady (declarations one rounds)) {s s₂ : State} {t : Token} {rest : List Token}
    {p : Program} (hs : s.rest = t :: rest) (run : declarations one (rounds + 1) s = .ok p s₂)
    (quiet : s₂.reports.length = s.reports.length) :
    ∃ r s₁ p₁, one s = .ok r s₁ ∧ declarations one rounds s₁ = .ok p₁ s₂ ∧ p = r.toList ++ p₁ ∧
      s₁.reports.length = s.reports.length ∧ s₂.reports.length = s₁.reports.length := by
  rcases declarations_run one rounds hs with ⟨r, s₁, first, others⟩ | ⟨stop, s₁, s', d, first, all, hd, -⟩
  · obtain ⟨p₁, s₃, rest⟩ := declarations_total one rounds s₁
    have whole := others p₁ s₃ rest
    rw [run] at whole
    cases whole
    have le := (steady.of_ok first).reports
    have le' := (steadyRest.of_ok rest).reports
    exact ⟨r, s₁, p₁, first, rest, rfl, by omega, by omega⟩
  · -- running out of levels is reported
    rw [run] at all
    cases all
    have le := (steady.of_error first).reports
    rw [hd, List.length_cons] at quiet
    omega

theorem steady_declarations {one : ParseM (Option Stmt)} (h : Steady one) (rounds : Nat) :
    Steady (declarations one rounds) := by
  induction rounds with
  | zero => exact fun s => State.Later.refl s
  | succ rounds ih =>
    have attempt : Steady (attempting one) :=
      (attempting_sound (n := 0) (L := fun _ _ _ => True) ⟨h, fun _ _ _ hn =>
        absurd hn (Nat.not_lt_zero _)⟩).steady
    refine Steady.bind (fun s => State.Later.refl s) fun next => ?_
    cases next with
    | none => exact fun s => State.Later.refl s
    | some t =>
      refine attempt.bind fun found => ?_
      cases found with
      | none => exact fun s => State.Later.refl s
      | some r => exact ih.bind fun _ s => State.Later.refl s

/-- Declarations that are read quietly to the end are read in front of a sequel as well, and then
the sequel is read. -/
theorem declarations_append {one : ParseM (Option Stmt)} (h : ∀ n, Grasps sequel n one one)
    (rounds : Nat) : ∀ rounds' s s' p s₁, s.rest.length ≤ rounds → s'.rest.length ≤ rounds' →
      s.Ahead sequel s' → declarations one rounds s = .ok p s₁ →
      s₁.reports.length = s.reports.length →
      ∃ left s₁', s₁'.rest = sequel ∧ s₁'.reports = s'.reports ∧ sequel.length ≤ left ∧
        ∀ q s₂, declarations one left s₁' = .ok q s₂ →
          declarations one rounds' s' = .ok (p ++ q) s₂ := by
  induction rounds with
  | zero =>
    intro rounds' s s' p s₁ hs hs' ahead run _
    have none : s.rest = [] := List.length_eq_zero_iff.mp (Nat.le_zero.mp hs)
    have behind : s'.rest = sequel := by rw [ahead.rest, none, List.nil_append]
    cases run
    exact ⟨rounds', s', behind, rfl, behind ▸ hs', fun _ _ run => run⟩
  | succ rounds ih =>
    intro rounds' s s' p s₁ hs hs' ahead run quiet
    cases hrest : s.rest with
    | nil =>
      have behind : s'.rest = sequel := by rw [ahead.rest, hrest, List.nil_append]
      rw [declarations_nil hrest] at run
      cases run
      exact ⟨rounds', s', behind, rfl, behind ▸ hs', fun _ _ run => run⟩
    | cons t rest =>
      obtain ⟨r, s₂, p₁, first, others, rfl, hquiet, hquiet'⟩ :=
        declarations_quiet (h 0).steady (steady_declarations (h 0).steady rounds) hrest run quiet
      have shorter := (h 0).takes s r s₂ first hquiet
      obtain ⟨s₂', again, ahead₂, still⟩ := (h (s.rest.length + 1)).repeats s r s₂ s'
        (Nat.lt_succ_self _) first hquiet (.inl rfl) ahead
      -- the declaration took a token, so there was a round for it on the other side
      have hlength := congrArg List.length ahead₂.rest
      have hlength' := congrArg List.length ahead.rest
      rw [List.length_append] at hlength hlength'
      obtain ⟨k, rfl⟩ : ∃ k, rounds' = k + 1 := ⟨rounds' - 1, by omega⟩
      obtain ⟨left, s₁', behind, hreports, hleft, whole⟩ :=
        ih k s₂ s₂' p₁ s₁ (by omega) (by omega) ahead₂ others hquiet'
      have hs'' : s'.rest = t :: (rest ++ sequel) := by rw [ahead.rest, hrest, List.cons_append]
      refine ⟨left, s₁', behind, hreports.trans still, hleft, fun q s₃ hq => ?_⟩
      rcases declarations_run one k hs'' with ⟨r', s₄, first', others'⟩ | ⟨stop, s₄, _, _, first', -⟩
      · rw [again] at first'
        cases first'
        rw [List.append_assoc]
        exact others' _ _ (whole q s₃ hq)
      · rw [again] at first'
        cases first'

end Parser

/-- A program that is well formed does not start with an `else`. -/
theorem Program.not_startsWith_else {input : TokenList} (h : (Program.parse true input).2 = []) :
    ¬Grammar.StartsWith .kwElse input.tokens := by
  have derives := (Program.derives_of_parse input h).1
  generalize input.tokens = ts at derives
  generalize (Program.parse true input).1 = program at derives
  cases derives with
  | done => exact Grammar.not_startsWith_nil _
  | more first _ => exact (first.first.append _).not_startsWith rfl

/-- The tokens of two programs that are well formed, one after the other, are the tokens of the one
program followed by the other. -/
theorem Program.parse_append {a b : TokenList} (ending : Place)
    (ha : (Program.parse true a).2 = []) (hb : (Program.parse true b).2 = []) :
    Program.parse true ⟨a.tokens ++ b.tokens, ending⟩
      = ((Program.parse true a).1 ++ (Program.parse true b).1, []) := by
  have noElse := Program.not_startsWith_else hb
  let one := Parser.declaration (Parser.Context.top true) Parser.nesting
  obtain ⟨p, s, hp⟩ := Parser.declarations_total one a.tokens.length (Parser.State.start a)
  obtain ⟨q, u, hq⟩ := Parser.declarations_total one b.tokens.length (Parser.State.start b)
  rw [Program.parse_run true a hp] at ha ⊢
  rw [Program.parse_run true b hq] at hb ⊢
  have quietA : s.reports = [] := List.reverse_eq_nil_iff.mp ha
  have quietB : u.reports = [] := List.reverse_eq_nil_iff.mp hb
  -- the first program, with the second one behind it
  obtain ⟨left, s', hrest, hreports, hleft, whole⟩ := Parser.declarations_append
    (fun n => (Parser.statementsGrasp noElse Parser.nesting).declaration n (Parser.Context.top true))
    a.tokens.length (a.tokens ++ b.tokens).length (Parser.State.start a)
    (Parser.State.start ⟨a.tokens ++ b.tokens, ending⟩) p s (Nat.le_refl _) (Nat.le_refl _)
    ⟨rfl, by simp [Parser.State.start]⟩ hp (by rw [quietA]; rfl)
  -- the second program, with nothing behind it but with tokens taken before
  have enough : b.tokens.length ≤ s'.total := by
    rw [← hrest]
    exact s'.rest_le
  obtain ⟨left', u', hrest', hreports', -, whole'⟩ := Parser.declarations_append
    (fun n => (Parser.statementsGrasp (Grammar.not_startsWith_nil _) Parser.nesting).declaration n
      (Parser.Context.top true))
    b.tokens.length left (Parser.State.start b) s' q u (Nat.le_refl _) (by rw [hrest]; exact hleft)
    ⟨by rw [hrest, List.append_nil]; rfl, enough⟩ hq (by rw [quietB]; rfl)
  have run := whole _ _ (whole' [] u' (Parser.declarations_nil hrest'))
  rw [Program.parse_run true _ run, hreports', hreports, List.append_nil]
  rfl

/-- The same outside test mode, where tests are left out of both. -/
theorem Program.parse_append_dropping {a b : TokenList} (ending : Place)
    (ha : (Program.parse false a).2 = []) (hb : (Program.parse false b).2 = []) :
    Program.parse false ⟨a.tokens ++ b.tokens, ending⟩
      = ((Program.parse false a).1 ++ (Program.parse false b).1, []) := by
  rw [Program.parse_dropping] at ha hb
  rw [Program.parse_dropping, Program.parse_dropping a, Program.parse_dropping b,
    Program.parse_append ending ha hb, Parser.dropTests_append]

end ContractScript
