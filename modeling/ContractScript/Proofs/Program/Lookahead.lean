/-
What one token of lookahead tells about a derivation.

Every expression starts with one of a few kinds of token, and none of these
starts or ends anything else. What may come right behind an expression is said by
a number: how strongly a token pulls the expression before it to itself. A
nonterminal can be read up to a place if the token there pulls more weakly than
the operators of the nonterminal.
-/
import ContractScript.Proofs.Program.Grammar

set_option autoImplicit false

namespace ContractScript.Grammar

open ContractScript.Parser (Tier Join)

/-! ## Tables -/

theorem join?_eq_some {t : Tier} {kind : Token.Kind} {join : Join} :
    t.join? kind = some join ↔ Joins t kind join := by
  constructor
  · intro h
    unfold Tier.join? at h
    split at h <;> cases h <;> constructor
  · intro h
    cases h <;> rfl

theorem literal?_eq_some {t : Token} {value : Literal} :
    Parser.literal? t = some value ↔ Constant t value := by
  unfold Parser.literal?
  constructor
  · intro h
    split at h <;> cases h
    · rename_i hk; exact .falseWord hk
    · rename_i hk; exact .trueWord hk
    · rename_i hk; exact .nilWord hk
    · rename_i hk; exact .number hk
    · rename_i hk; exact .text hk
  · intro h
    cases h with
    | falseWord hk | trueWord hk | nilWord hk | number hk | text hk => rw [hk]

/-- A counting loop is built as the grammar says. -/
theorem forLoop_eq_countingLoop (start : Option Stmt) (condition step : Option Expr) (body : Stmt) :
    Parser.forLoop start condition step body = countingLoop start condition step body := by
  cases start <;> cases step <;> rfl

/-! ## First tokens -/

/-- The kinds that an expression without operator in front can start with. -/
def startsOperand (kind : Token.Kind) : Bool :=
  kind ∈ [.kwFalse, .kwTrue, .kwNil, .number, .text, .identifier, .leftParen, .leftSquare,
    .leftBrace]

/-- The kinds that an expression can start with. -/
def startsExpression (kind : Token.Kind) : Bool :=
  startsOperand kind || kind ∈ [Token.Kind.bang, .minus]

/-- The first token satisfies a test on kinds. -/
def FirstIn (test : Token.Kind → Bool) (ts : List Token) : Prop :=
  ∃ t rest, ts = t :: rest ∧ test t.kind = true

theorem FirstIn.append {test : Token.Kind → Bool} {ts : List Token} (h : FirstIn test ts)
    (more : List Token) : FirstIn test (ts ++ more) := by
  obtain ⟨t, rest, rfl, ht⟩ := h
  exact ⟨t, rest ++ more, rfl, ht⟩

theorem FirstIn.ne_nil {test : Token.Kind → Bool} {ts : List Token} (h : FirstIn test ts) :
    ts ≠ [] := by
  obtain ⟨t, rest, rfl, -⟩ := h
  exact List.cons_ne_nil t rest

/-- A first token that passes a test is of no kind that fails it. -/
theorem FirstIn.not_startsWith {test : Token.Kind → Bool} {ts : List Token} (h : FirstIn test ts)
    {kind : Token.Kind} (hk : test kind = false) : ¬StartsWith kind ts := by
  obtain ⟨t, rest, rfl, ht⟩ := h
  rintro ⟨t', rest', h', hkind⟩
  cases h'
  rw [hkind, hk] at ht
  cases ht

theorem not_startsWith_nil (kind : Token.Kind) : ¬StartsWith kind [] := by
  rintro ⟨t, rest, h, -⟩
  cases h

theorem not_startsWith_cons {kind : Token.Kind} {t : Token} {rest : List Token}
    (h : t.kind ≠ kind) : ¬StartsWith kind (t :: rest) := by
  rintro ⟨t', rest', h', hk⟩
  cases h'
  exact h hk

theorem Constant.startsOperand {t : Token} {value : Literal} (h : Constant t value) :
    startsOperand t.kind = true := by
  cases h with
  | falseWord hk | trueWord hk | nilWord hk | number hk | text hk => rw [hk]; rfl

theorem Path.startsWith {ts : List Token} {names : List Lexeme} (h : Path ts names) :
    StartsWith .identifier ts := by
  cases h with
  | one hk => exact ⟨_, _, rfl, hk⟩
  | more hk _ _ => exact ⟨_, _, rfl, hk⟩

theorem Primary.first {ts : List Token} {e : Expr} (h : Primary ts e) :
    FirstIn startsOperand ts := by
  cases h with
  | literal hc => exact ⟨_, _, rfl, hc.startsOperand⟩
  | name hk => exact ⟨_, _, rfl, by rw [hk]; rfl⟩
  | qualified hp _ =>
    obtain ⟨t, rest, rfl, hk⟩ := hp.startsWith
    exact ⟨t, rest, rfl, by rw [hk]; rfl⟩
  | group hk _ _ => exact ⟨_, _, rfl, by rw [hk]; rfl⟩
  | list hk _ _ => exact ⟨_, _, rfl, by rw [hk]; rfl⟩
  | map hk _ _ => exact ⟨_, _, rfl, by rw [hk]; rfl⟩

theorem Postfixed.first {ts : List Token} {e : Expr} (h : Postfixed ts e) :
    FirstIn startsOperand ts := by
  cases h with
  | mk hp _ => exact hp.first.append _

theorem Unary.first {ts : List Token} {e : Expr} (h : Unary ts e) :
    FirstIn startsExpression ts := by
  cases h with
  | not hk _ => exact ⟨_, _, rfl, by rw [hk]; rfl⟩
  | negate hk _ => exact ⟨_, _, rfl, by rw [hk]; rfl⟩
  | postfixed hp =>
    obtain ⟨t, rest, rfl, ht⟩ := hp.first
    exact ⟨t, rest, rfl, by rw [startsExpression, ht]; rfl⟩

mutual

theorem Level.first {t : Tier} {ts : List Token} {e : Expr} :
    Level t ts e → FirstIn startsExpression ts
  | .mk ho _ => (Operand.first ho).append _

theorem Operand.first {t : Tier} {ts : List Token} {e : Expr} :
    Operand t ts e → FirstIn startsExpression ts
  | .or h => Level.first h
  | .and h => Level.first h
  | .equality h => Level.first h
  | .comparison h => Level.first h
  | .term h => Level.first h
  | .factor h => Unary.first h

end

theorem Choice.first {ts : List Token} {e : Expr} (h : Choice ts e) :
    FirstIn startsExpression ts := by
  cases h with
  | plain h => exact h.first
  | choice h _ _ _ _ => exact h.first.append _

/-- Every expression starts with a token that starts expressions. -/
theorem Assignment.first {ts : List Token} {e : Expr} (h : Assignment ts e) :
    FirstIn startsExpression ts := by
  cases h with
  | assign hk _ _ => exact ⟨_, _, rfl, by rw [hk]; rfl⟩
  | choice h => exact h.first

theorem MapEntry.first {ts : List Token} {entry : Expr × Expr} (h : MapEntry ts entry) :
    FirstIn startsExpression ts := by
  cases h with
  | mk hk _ _ => exact hk.first.append _

/-- The kinds that a statement can start with. -/
def opensStatement (kind : Token.Kind) : Bool :=
  startsExpression kind || kind ∈ [Token.Kind.kwPrint, .kwIf, .kwWhile, .kwFor, .kwBreak, .kwReturn,
    .kwAssertion, .kwCheck, .kwImport]

/-- The kinds that a declaration or statement can start with. -/
def opensDeclaration (kind : Token.Kind) : Bool :=
  opensStatement kind || kind ∈ [Token.Kind.kwVar, .kwFun, .kwTest]

theorem ExpressionStatement.first {ts : List Token} {s : Stmt} (h : ExpressionStatement ts s) :
    FirstIn startsExpression ts := by
  cases h with
  | mk h _ => exact h.first.append _

theorem Statement.first {takesElse : Bool} {ts : List Token} {s : Stmt}
    (h : Statement takesElse ts s) : FirstIn opensStatement ts := by
  cases h with
  | contract hword _ _ _ =>
    cases hword with
    | assertion hk | check hk => exact ⟨_, _, rfl, by rw [hk]; rfl⟩
  | expression h _ =>
    obtain ⟨t, rest, rfl, ht⟩ := h.first
    exact ⟨t, rest, rfl, by rw [opensStatement, ht]; rfl⟩
  | print hk _ _ | block hk _ _ | branch hk _ _ _ _ | branchElse hk _ _ _ _ _ _ | loop hk _ _ _ _
  | counting hk _ _ _ _ _ _ _ | leave hk _ | yield hk _ _ | load hk _ _ _ =>
    exact ⟨_, _, rfl, by rw [hk]; rfl⟩

theorem Declaration.first {ts : List Token} {s : Stmt} (h : Declaration ts s) :
    FirstIn opensDeclaration ts := by
  cases h with
  | statement h =>
    obtain ⟨t, rest, rfl, ht⟩ := h.first
    exact ⟨t, rest, rfl, by rw [opensDeclaration, ht]; rfl⟩
  | var hk _ | function hk _ _ _ _ | test hk _ _ => exact ⟨_, _, rfl, by rw [hk]; rfl⟩

/-! ## Operands alone -/

/-- An operand without binary operators around it is an expression of every tier. -/
theorem Unary.toLevel {ts : List Token} {e : Expr} (h : Unary ts e) (t : Tier) : Level t ts e := by
  have alone : ∀ {t : Tier} {ts : List Token}, Operand t ts e → Level t ts e := by
    intro t ts ho
    have hl : Level t (ts ++ []) e := .mk ho .done
    rwa [List.append_nil] at hl
  -- from the tightest tier to the loosest
  have factor : Level .factor ts e := alone (.factor h)
  have term : Level .term ts e := alone (.term factor)
  have comparison : Level .comparison ts e := alone (.comparison term)
  have equality : Level .equality ts e := alone (.equality comparison)
  have and : Level .and ts e := alone (.and equality)
  cases t with
  | factor => exact factor
  | term => exact term
  | comparison => exact comparison
  | equality => exact equality
  | and => exact and
  | or => exact alone (.or and)

theorem Primary.toUnary {ts : List Token} {e : Expr} (h : Primary ts e) : Unary ts e := by
  have hp : Postfixed (ts ++ []) e := .mk h .done
  rw [List.append_nil] at hp
  exact .postfixed hp

theorem Unary.toChoice {ts : List Token} {e : Expr} (h : Unary ts e) : Choice ts e :=
  .plain (h.toLevel .or)

/-! ## Plain names -/

/-- An operator never builds a plain name. -/
theorem Joins.ne_variable {t : Tier} {kind : Token.Kind} {join : Join} (h : Joins t kind join)
    (place : Place) (left right : Expr) (name : Lexeme) :
    join place left right ≠ .variable name := by
  cases h <;> exact Expr.noConfusion

theorem Operators.eq_of_variable {t : Tier} {ts : List Token} {left e : Expr} {name : Lexeme} :
    Operators t left ts e → e = .variable name → ts = [] ∧ left = .variable name
  | .done, h => ⟨rfl, h⟩
  | .more hj _ hrest, h => by
    -- the first operator would have built the plain name
    obtain ⟨-, hnode⟩ := Operators.eq_of_variable hrest h
    exact absurd hnode (hj.ne_variable _ _ _ _)

theorem Suffixes.eq_of_variable {ts : List Token} {operand e : Expr} {name : Lexeme} :
    Suffixes operand ts e → e = .variable name → ts = [] ∧ operand = .variable name
  | .done, h => ⟨rfl, h⟩
  | .call _ _ _ hrest, h => nomatch (Suffixes.eq_of_variable hrest h).2
  | .index _ _ _ hrest, h => nomatch (Suffixes.eq_of_variable hrest h).2
  | .slice _ _ _ _ _ hrest, h => nomatch (Suffixes.eq_of_variable hrest h).2

theorem Unary.eq_of_variable {ts : List Token} {name : Lexeme} (h : Unary ts (.variable name)) :
    ∃ t : Token, ts = [t] ∧ t.kind = .identifier ∧ t.lexeme = name := by
  cases h with
  | postfixed h =>
    cases h with
    | mk hp hs =>
      obtain ⟨rfl, rfl⟩ := hs.eq_of_variable rfl
      cases hp with
      | name hk => exact ⟨_, rfl, hk, rfl⟩

mutual

theorem Level.eq_of_variable {t : Tier} {ts : List Token} {e : Expr} {name : Lexeme} :
    Level t ts e → e = .variable name →
      ∃ t : Token, ts = [t] ∧ t.kind = .identifier ∧ t.lexeme = name
  | .mk ho hops, h => by
    obtain ⟨rfl, hleft⟩ := hops.eq_of_variable h
    rw [List.append_nil]
    exact Operand.eq_of_variable ho hleft

theorem Operand.eq_of_variable {t : Tier} {ts : List Token} {e : Expr} {name : Lexeme} :
    Operand t ts e → e = .variable name →
      ∃ t : Token, ts = [t] ∧ t.kind = .identifier ∧ t.lexeme = name
  | .or h, he => Level.eq_of_variable h he
  | .and h, he => Level.eq_of_variable h he
  | .equality h, he => Level.eq_of_variable h he
  | .comparison h, he => Level.eq_of_variable h he
  | .term h, he => Level.eq_of_variable h he
  | .factor h, he => Unary.eq_of_variable (he ▸ h)

end

/-- Only a single identifier is read as a plain name. -/
theorem Choice.eq_of_variable {ts : List Token} {name : Lexeme} (h : Choice ts (.variable name)) :
    ∃ t : Token, ts = [t] ∧ t.kind = .identifier ∧ t.lexeme = name := by
  cases h with
  | plain h => exact h.eq_of_variable rfl

/-! ## What follows an expression -/

/-- How strongly a token pulls the expression before it to itself. -/
def strength : Token.Kind → Nat
  | .doubleColon => 10
  | .leftParen | .leftSquare => 9
  | .slash | .star | .percent => 8
  | .minus | .plus => 7
  | .greater | .greaterEqual | .less | .lessEqual => 6
  | .bangEqual | .equalEqual => 5
  | .kwAnd => 4
  | .kwOr => 3
  | .question => 2
  | .equal => 1
  | _ => 0

/-- How strongly the next token pulls. -/
def pull : List Token → Nat
  | [] => 0
  | t :: _ => strength t.kind

/-- How strongly the operators of a tier pull. -/
def tierStrength : Tier → Nat
  | .or => 3
  | .and => 4
  | .equality => 5
  | .comparison => 6
  | .term => 7
  | .factor => 8

@[simp] theorem pull_cons (t : Token) (rest : List Token) : pull (t :: rest) = strength t.kind := rfl

theorem not_startsWith_of_pull {kind : Token.Kind} {ts : List Token}
    (h : pull ts < strength kind) : ¬StartsWith kind ts := by
  rintro ⟨t, rest, rfl, rfl⟩
  exact Nat.lt_irrefl _ h

theorem Joins.strength_eq {t : Tier} {kind : Token.Kind} {join : Join} (h : Joins t kind join) :
    strength kind = tierStrength t := by
  cases h <;> rfl

/-- Behind an operand stands an operator of the tier or what follows them all. -/
theorem Operators.pull_append {t : Tier} {left e : Expr} {ts after : List Token}
    (h : Operators t left ts e) (hafter : pull after < tierStrength t) :
    pull (ts ++ after) < tierStrength t + 1 := by
  cases h with
  | done => exact Nat.lt_succ_of_lt hafter
  | more hj _ _ =>
    rw [List.cons_append, pull_cons, hj.strength_eq]
    exact Nat.lt_succ_self _

/-- Behind an operand stands a bracket or what follows them all. -/
theorem Suffixes.pull_append {operand e : Expr} {ts after : List Token}
    (h : Suffixes operand ts e) (hafter : pull after < 9) : pull (ts ++ after) < 10 := by
  cases h with
  | done => exact Nat.lt_succ_of_lt hafter
  | call hk _ _ _ => rw [List.cons_append, pull_cons, hk]; decide
  | index hk _ _ _ => rw [List.cons_append, pull_cons, hk]; decide
  | slice hk _ _ _ _ _ => rw [List.cons_append, pull_cons, hk]; decide

/-! ### Behind a text

What can follow a text inside an expression is an operator, an opening bracket or the like, so
a text that is followed by anything else is an expression of its own. -/

theorem Operators.pull_pos {t : Tier} {left e : Expr} {ts : List Token}
    (h : Operators t left ts e) : ts = [] ∨ 0 < pull ts := by
  cases h with
  | done => exact .inl rfl
  | more hj _ _ =>
    rw [pull_cons, hj.strength_eq]
    exact .inr (by cases t <;> decide)

theorem Suffixes.pull_pos {operand e : Expr} {ts : List Token} (h : Suffixes operand ts e) :
    ts = [] ∨ 0 < pull ts := by
  cases h with
  | done => exact .inl rfl
  | call hk _ _ _ => rw [pull_cons, hk]; exact .inr (by decide)
  | index hk _ _ _ => rw [pull_cons, hk]; exact .inr (by decide)
  | slice hk _ _ _ _ _ => rw [pull_cons, hk]; exact .inr (by decide)

/-- The rest of a list that starts with a text is empty or starts with a token that pulls. -/
def PullsBehindText (ts : List Token) : Prop :=
  ∀ t rest, ts = t :: rest → t.kind = .text → rest = [] ∨ 0 < pull rest

theorem PullsBehindText.append {ts more : List Token} (h : PullsBehindText ts) (hne : ts ≠ [])
    (hmore : more = [] ∨ 0 < pull more) : PullsBehindText (ts ++ more) := by
  intro t rest hts ht
  cases ts with
  | nil => exact absurd rfl hne
  | cons t' rest' =>
    cases hts
    rcases h t rest' rfl ht with rfl | hpull
    · exact hmore
    · cases rest' with
      | nil => exact absurd hpull (Nat.lt_irrefl 0)
      | cons u us => exact .inr hpull

theorem PullsBehindText.ofFirst {kind : Token.Kind} {ts : List Token} (h : StartsWith kind ts)
    (hk : kind ≠ .text) : PullsBehindText ts := by
  obtain ⟨u, us, rfl, rfl⟩ := h
  rintro t rest hts ht
  cases hts
  exact absurd ht hk

theorem Primary.pullsBehindText {ts : List Token} {e : Expr} (h : Primary ts e) :
    PullsBehindText ts := by
  cases h with
  | literal _ | name _ =>
    intro t rest hts _
    cases hts
    exact .inl rfl
  | qualified hp _ => exact .ofFirst hp.startsWith (by decide)
  | group hk _ _ => exact .ofFirst ⟨_, _, rfl, hk⟩ (by decide)
  | list hk _ _ => exact .ofFirst ⟨_, _, rfl, hk⟩ (by decide)
  | map hk _ _ => exact .ofFirst ⟨_, _, rfl, hk⟩ (by decide)

theorem Unary.pullsBehindText {ts : List Token} {e : Expr} (h : Unary ts e) :
    PullsBehindText ts := by
  cases h with
  | not hk _ => exact .ofFirst ⟨_, _, rfl, hk⟩ (by decide)
  | negate hk _ => exact .ofFirst ⟨_, _, rfl, hk⟩ (by decide)
  | postfixed hp =>
    cases hp with
    | mk hp hs => exact hp.pullsBehindText.append hp.first.ne_nil hs.pull_pos

mutual

theorem Level.pullsBehindText {t : Tier} {ts : List Token} {e : Expr} :
    Level t ts e → PullsBehindText ts
  | .mk ho hops => (Operand.pullsBehindText ho).append ho.first.ne_nil hops.pull_pos

theorem Operand.pullsBehindText {t : Tier} {ts : List Token} {e : Expr} :
    Operand t ts e → PullsBehindText ts
  | .or h => Level.pullsBehindText h
  | .and h => Level.pullsBehindText h
  | .equality h => Level.pullsBehindText h
  | .comparison h => Level.pullsBehindText h
  | .term h => Level.pullsBehindText h
  | .factor h => Unary.pullsBehindText h

end

theorem Assignment.pullsBehindText {ts : List Token} {e : Expr} (h : Assignment ts e) :
    PullsBehindText ts := by
  cases h with
  | assign hk _ _ => exact .ofFirst ⟨_, _, rfl, hk⟩ (by decide)
  | choice h =>
    cases h with
    | plain h => exact h.pullsBehindText
    | choice h hk _ _ _ =>
      refine h.pullsBehindText.append h.first.ne_nil (.inr ?_)
      rw [pull_cons, hk]
      decide

/-! ## The end of a contract -/

/-- One of some kinds is next. -/
def EndsIn (ends : List Token.Kind) (after : List Token) : Prop :=
  ∃ kind ∈ ends, StartsWith kind after

/-- A text directly before one of some kinds is next. -/
def MessageNext (ends : List Token.Kind) (ts : List Token) : Prop :=
  ∃ t rest, ts = t :: rest ∧ t.kind = .text ∧ EndsIn ends rest

/-- A condition is not taken for the message: only a text alone could be. -/
theorem Assignment.not_messageNext {ends : List Token.Kind} {ts after : List Token} {e : Expr}
    (h : Assignment ts e) (hends : ∀ kind ∈ ends, strength kind = 0)
    (hlone : LoneText ts → ¬EndsIn ends after) : ¬MessageNext ends (ts ++ after) := by
  obtain ⟨t, rest, rfl, -⟩ := h.first
  rintro ⟨t', rest', hts, ht, kind, hmem, u, us, hu, rfl⟩
  cases hts
  rcases h.pullsBehindText t rest rfl ht with rfl | hpull
  · exact hlone ⟨t, rfl, ht⟩ ⟨u.kind, hmem, u, us, hu, rfl⟩
  · cases rest with
    | nil => exact absurd hpull (Nat.lt_irrefl 0)
    | cons w ws =>
      -- what follows the text pulls, and no end of a contract does
      cases hu
      rw [pull_cons, hends _ hmem] at hpull
      exact absurd hpull (Nat.lt_irrefl 0)

/-- Kinds that do not pull can follow every expression. -/
theorem EndsIn.pull_eq_zero {ends : List Token.Kind} {after : List Token} (h : EndsIn ends after)
    (hends : ∀ kind ∈ ends, strength kind = 0) : pull after = 0 := by
  obtain ⟨kind, hmem, t, rest, rfl, rfl⟩ := h
  exact hends _ hmem

theorem EndsIn.not_startsWith {ends : List Token.Kind} {after : List Token} (h : EndsIn ends after)
    {kind : Token.Kind} (hno : kind ∉ ends) : ¬StartsWith kind after := by
  obtain ⟨_, hmem, t, rest, rfl, rfl⟩ := h
  rintro ⟨t', rest', h', rfl⟩
  cases h'
  exact hno hmem

end ContractScript.Grammar
