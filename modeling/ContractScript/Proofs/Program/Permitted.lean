/-
What a tree has to satisfy beyond the grammar.

A `break` stands inside a loop and a `return` inside a function, where a function
or test in between shields from what is around it, and no list of parameters or
arguments is longer than the limit. These are conditions on finished trees: a
counting loop has already become a loop, so there is one case for both kinds.
-/
import ContractScript.Proofs.Program.Grammar

set_option autoImplicit false

namespace ContractScript

/-! ## Expressions -/

mutual

/-- No call inside passes too many arguments. -/
def Expr.Permitted : Expr → Prop
  | .literal _ => True
  | .group inner => inner.Permitted
  | .unary _ _ operand => operand.Permitted
  | .binary _ _ left right => left.Permitted ∧ right.Permitted
  | .logical _ _ left right => left.Permitted ∧ right.Permitted
  | .choice condition whenTrue whenFalse =>
    condition.Permitted ∧ whenTrue.Permitted ∧ whenFalse.Permitted
  | .variable _ => True
  | .qualified _ _ => True
  | .assign _ value => value.Permitted
  | .call callee _ arguments =>
    callee.Permitted ∧ arguments.length ≤ maxArguments ∧ Expr.AllPermitted arguments
  | .list items => Expr.AllPermitted items
  | .map entries => Expr.EntriesPermitted entries
  | .index collection _ key => collection.Permitted ∧ key.Permitted
  | .slice collection _ first last =>
    collection.Permitted ∧ first.Permitted ∧ last.Permitted

/-- The same of every expression of a list. -/
def Expr.AllPermitted : List Expr → Prop
  | [] => True
  | e :: rest => e.Permitted ∧ Expr.AllPermitted rest

/-- The same of every key and value. -/
def Expr.EntriesPermitted : List (Expr × Expr) → Prop
  | [] => True
  | (key, value) :: rest => (key.Permitted ∧ value.Permitted) ∧ Expr.EntriesPermitted rest

end

theorem Expr.allPermitted_iff (items : List Expr) :
    Expr.AllPermitted items ↔ ∀ e ∈ items, e.Permitted := by
  induction items with
  | nil => simp [Expr.AllPermitted]
  | cons e rest ih => rw [Expr.AllPermitted, ih, List.forall_mem_cons]

theorem Expr.entriesPermitted_iff (entries : List (Expr × Expr)) :
    Expr.EntriesPermitted entries ↔ ∀ e ∈ entries, e.1.Permitted ∧ e.2.Permitted := by
  induction entries with
  | nil => simp [Expr.EntriesPermitted]
  | cons e rest ih => rw [Expr.EntriesPermitted, ih, List.forall_mem_cons]

/-- The same of an expression that may be missing. -/
def Expr.OptionPermitted : Option Expr → Prop
  | none => True
  | some e => e.Permitted

/-- The same of the conditions of a contract. -/
def Clauses.Permitted (c : Clauses) : Prop :=
  Expr.AllPermitted c.conditions

/-- The same of what a function declares, which has not too many parameters. -/
def Signature.Permitted (s : Signature) : Prop :=
  s.parameters.length ≤ maxArguments ∧ s.before.Permitted ∧ s.after.Permitted

/-! ## Statements -/

mutual

/-- Every `break` and `return` is where it may be, and no list is too long. The two flags say
what is around the statement. -/
def Stmt.Permitted (inLoop inFunction : Bool) : Stmt → Prop
  | .expression value => value.Permitted
  | .print value => value.Permitted
  | .var _ value => Expr.OptionPermitted value
  | .block body => Stmt.AllPermitted inLoop inFunction body
  | .branch condition whenTrue whenFalse =>
    condition.Permitted ∧ whenTrue.Permitted inLoop inFunction ∧
      Stmt.OptionPermitted inLoop inFunction whenFalse
  | .loop condition body => condition.Permitted ∧ body.Permitted true inFunction
  | .leave _ => inLoop = true
  | .yield _ value => inFunction = true ∧ Expr.OptionPermitted value
  | .function signature body => signature.Permitted ∧ Stmt.AllPermitted false true body
  | .contract _ _ clauses => clauses.Permitted
  | .load _ _ _ => True
  | .test _ _ body => body.Permitted false false

/-- The same of every statement of a list. -/
def Stmt.AllPermitted (inLoop inFunction : Bool) : List Stmt → Prop
  | [] => True
  | s :: rest => s.Permitted inLoop inFunction ∧ Stmt.AllPermitted inLoop inFunction rest

/-- The same of a statement that may be missing. -/
def Stmt.OptionPermitted (inLoop inFunction : Bool) : Option Stmt → Prop
  | none => True
  | some s => s.Permitted inLoop inFunction

end

/-- A program starts outside every loop and function. -/
def Program.Permitted (p : Program) : Prop :=
  Stmt.AllPermitted false false p

/-! ## What the grammar builds -/

namespace Grammar

/-- The node of a binary operator keeps to the limits if its operands do. -/
theorem Joins.permitted_iff {t : Parser.Tier} {kind : Token.Kind} {join : Parser.Join}
    (h : Joins t kind join) (place : Place) (left right : Expr) :
    (join place left right).Permitted ↔ left.Permitted ∧ right.Permitted := by
  cases h <;> rw [Expr.Permitted]

/-- Operators keep their left operand as a part of the tree. -/
theorem Operators.permitted_left {t : Parser.Tier} {ts : List Token} {left e : Expr} :
    Operators t left ts e → e.Permitted → left.Permitted
  | .done, h => h
  | .more hj _ hrest, h =>
    ((hj.permitted_iff _ _ _).mp (Operators.permitted_left hrest h)).1

/-- Calls and subscripts keep their operand as a part of the tree. -/
theorem Suffixes.permitted_left {ts : List Token} {operand e : Expr} :
    Suffixes operand ts e → e.Permitted → operand.Permitted
  | .done, h => h
  | .call _ _ _ hrest, h => by
    have node := Suffixes.permitted_left hrest h
    rw [Expr.Permitted] at node
    exact node.1
  | .index _ _ _ hrest, h => by
    have node := Suffixes.permitted_left hrest h
    rw [Expr.Permitted] at node
    exact node.1
  | .slice _ _ _ _ _ hrest, h => by
    have node := Suffixes.permitted_left hrest h
    rw [Expr.Permitted] at node
    exact node.1

theorem countingLoop_permitted_iff (inLoop inFunction : Bool) (start : Option Stmt)
    (condition step : Option Expr) (body : Stmt) :
    (countingLoop start condition step body).Permitted inLoop inFunction ↔
      Stmt.OptionPermitted inLoop inFunction start ∧ Expr.OptionPermitted condition ∧
        Expr.OptionPermitted step ∧ body.Permitted true inFunction := by
  cases start <;> cases condition <;> cases step <;>
    simp [countingLoop, grouped, Stmt.Permitted, Stmt.AllPermitted, Stmt.OptionPermitted,
      Expr.OptionPermitted, Expr.Permitted, and_comm]

end Grammar

end ContractScript
