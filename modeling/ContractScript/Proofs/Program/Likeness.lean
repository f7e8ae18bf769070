/-
Programs that are alike.

Two programs are alike if they are built in the same way and differ only in what a
report on them would show: the places that are kept beside the nodes. How far these may
differ is a relation between places. A second way to be alike is for contracts that are
left out: the conditions before and after a function are gone, an assertion has become an
empty block, and what is gone were conditions that call nothing and assign nothing. The
two are one relation, with a mode that allows the second.
-/
import Mathlib.Data.List.Forall2
import ContractScript.Proofs.Program.Dropping

set_option autoImplicit false

namespace ContractScript

/-! ## Relations on parts -/

/-- Pairs that are related in both parts. -/
inductive PairLike {α β : Type} (R : α → α → Prop) (Q : β → β → Prop) : α × β → α × β → Prop
  | mk {a a' : α} {b b' : β} (first : R a a') (second : Q b b') : PairLike R Q (a, b) (a', b')

theorem optionRel_refl {α : Type} {R : α → α → Prop} {x : Option α}
    (h : ∀ a ∈ x, R a a) : Option.Rel R x x := by
  cases x with
  | none => exact .none
  | some a => exact .some (h a rfl)

/-- Places in the same source. -/
def Place.SameFile (p p' : Place) : Prop :=
  p.file = p'.file

variable {R : Place → Place → Prop}

/-- The same text, at places that are related. -/
structure Lexeme.Like (R : Place → Place → Prop) (l l' : Lexeme) : Prop where
  text : l.text = l'.text
  place : R l.place l'.place

theorem Lexeme.Like.refl [Std.Refl R] (l : Lexeme) : l.Like R l :=
  ⟨rfl, Std.Refl.refl _⟩

/-- The same complaint about the same text, at places that are related. -/
structure Diagnostic.Like (R : Place → Place → Prop) (d d' : Diagnostic) : Prop where
  place : R d.place d'.place
  spot : d.spot = d'.spot
  complaint : d.complaint = d'.complaint

/-! ## Expressions -/

/-- Expressions that differ only in places. -/
inductive Expr.Like (R : Place → Place → Prop) : Expr → Expr → Prop
  | literal (value : Literal) : Like R (.literal value) (.literal value)
  | group {e e' : Expr} (inner : Like R e e') : Like R (.group e) (.group e')
  | unary {op : UnaryOp} {p p' : Place} {e e' : Expr} (place : R p p') (operand : Like R e e') :
      Like R (.unary op p e) (.unary op p' e')
  | binary {op : BinaryOp} {p p' : Place} {a a' b b' : Expr} (place : R p p') (left : Like R a a')
      (right : Like R b b') : Like R (.binary op p a b) (.binary op p' a' b')
  | logical {op : LogicalOp} {p p' : Place} {a a' b b' : Expr} (place : R p p') (left : Like R a a')
      (right : Like R b b') : Like R (.logical op p a b) (.logical op p' a' b')
  | choice {c c' a a' b b' : Expr} (condition : Like R c c') (whenTrue : Like R a a')
      (whenFalse : Like R b b') : Like R (.choice c a b) (.choice c' a' b')
  | «variable» {l l' : Lexeme} (name : l.Like R l') : Like R (.variable l) (.variable l')
  | qualified {ls ls' : List Lexeme} {l l' : Lexeme} (spaces : List.Forall₂ (Lexeme.Like R) ls ls')
      (name : l.Like R l') : Like R (.qualified ls l) (.qualified ls' l')
  | assign {l l' : Lexeme} {e e' : Expr} (name : l.Like R l') (value : Like R e e') :
      Like R (.assign l e) (.assign l' e')
  | call {f f' : Expr} {p p' : Place} {es es' : List Expr} (callee : Like R f f') (close : R p p')
      (arguments : List.Forall₂ (Expr.Like R) es es') : Like R (.call f p es) (.call f' p' es')
  | list {es es' : List Expr} (items : List.Forall₂ (Expr.Like R) es es') :
      Like R (.list es) (.list es')
  | map {ps ps' : List (Expr × Expr)}
      (entries : List.Forall₂ (PairLike (Expr.Like R) (Expr.Like R)) ps ps') :
      Like R (.map ps) (.map ps')
  | index {c c' k k' : Expr} {p p' : Place} (collection : Like R c c') (bracket : R p p')
      (key : Like R k k') : Like R (.index c p k) (.index c' p' k')
  | slice {c c' a a' b b' : Expr} {p p' : Place} (collection : Like R c c') (bracket : R p p')
      (first : Like R a a') (last : Like R b b') : Like R (.slice c p a b) (.slice c' p' a' b')

mutual

theorem Expr.Like.refl [Std.Refl R] : (e : Expr) → e.Like R e
  | .literal value => .literal value
  | .group inner => .group (refl inner)
  | .unary _ _ operand => .unary (Std.Refl.refl _) (refl operand)
  | .binary _ _ left right => .binary (Std.Refl.refl _) (refl left) (refl right)
  | .logical _ _ left right => .logical (Std.Refl.refl _) (refl left) (refl right)
  | .choice condition whenTrue whenFalse => .choice (refl condition) (refl whenTrue) (refl whenFalse)
  | .variable name => .variable (.refl name)
  | .qualified _ name => .qualified (List.forall₂_same.mpr fun l _ => .refl l) (.refl name)
  | .assign name value => .assign (.refl name) (refl value)
  | .call callee _ arguments => .call (refl callee) (Std.Refl.refl _) (reflAll arguments)
  | .list items => .list (reflAll items)
  | .map entries => .map (reflPairs entries)
  | .index collection _ key => .index (refl collection) (Std.Refl.refl _) (refl key)
  | .slice collection _ first last =>
    .slice (refl collection) (Std.Refl.refl _) (refl first) (refl last)

theorem Expr.Like.reflAll [Std.Refl R] : (es : List Expr) → List.Forall₂ (Expr.Like R) es es
  | [] => .nil
  | e :: rest => .cons (refl e) (reflAll rest)

theorem Expr.Like.reflPairs [Std.Refl R] :
    (ps : List (Expr × Expr)) → List.Forall₂ (PairLike (Expr.Like R) (Expr.Like R)) ps ps
  | [] => .nil
  | (k, v) :: rest => .cons (.mk (refl k) (refl v)) (reflPairs rest)

end

mutual

/-- Whether an expression calls nothing and assigns nothing, at any depth. -/
def Expr.isPure : Expr → Bool
  | .literal _ | .variable _ | .qualified _ _ => true
  | .group inner => inner.isPure
  | .unary _ _ operand => operand.isPure
  | .binary _ _ left right | .logical _ _ left right => left.isPure && right.isPure
  | .choice condition whenTrue whenFalse =>
    condition.isPure && whenTrue.isPure && whenFalse.isPure
  | .assign _ _ | .call _ _ _ => false
  | .list items => Expr.allPure items
  | .map entries => Expr.pairsPure entries
  | .index collection _ key => collection.isPure && key.isPure
  | .slice collection _ first last => collection.isPure && first.isPure && last.isPure

/-- The same of every expression of a list. -/
def Expr.allPure : List Expr → Bool
  | [] => true
  | e :: rest => e.isPure && Expr.allPure rest

/-- The same of every entry of a map. -/
def Expr.pairsPure : List (Expr × Expr) → Bool
  | [] => true
  | (k, v) :: rest => k.isPure && v.isPure && Expr.pairsPure rest

end

/-! ## Statements -/

/-- What the statements of two programs may be: with tests, without tests, or without tests and on one
side without contracts. -/
inductive Mode where
  | tested
  | untested
  | erasing
deriving DecidableEq

/-- Clauses that differ only in places, or whose conditions are gone. -/
inductive Clauses.Like (R : Place → Place → Prop) (mode : Mode) : Clauses → Clauses → Prop
  | same {es es' : List Expr} {message : Option String}
      (conditions : List.Forall₂ (Expr.Like R) es es') : Like R mode ⟨es, message⟩ ⟨es', message⟩
  | emptied {es : List Expr} {message : Option String} (allowed : mode = .erasing)
      (pure : Expr.allPure es = true) : Like R mode ⟨es, message⟩ ⟨[], message⟩

/-- Signatures that are alike. -/
structure Signature.Like (R : Place → Place → Prop) (mode : Mode) (s s' : Signature) : Prop where
  name : s.name.Like R s'.name
  parameters : List.Forall₂ (Lexeme.Like R) s.parameters s'.parameters
  before : s.before.Like R mode s'.before
  after : s.after.Like R mode s'.after

/-- Statements that differ only in places, or in contracts that one of them leaves out. A test that
catches a fault would tell such a difference, so there are none then. -/
inductive Stmt.Like (R : Place → Place → Prop) (mode : Mode) : Stmt → Stmt → Prop
  | expression {e e' : Expr} (value : e.Like R e') : Like R mode (.expression e) (.expression e')
  | print {e e' : Expr} (value : e.Like R e') : Like R mode (.print e) (.print e')
  | var {l l' : Lexeme} {v v' : Option Expr} (name : l.Like R l')
      (value : Option.Rel (Expr.Like R) v v') : Like R mode (.var l v) (.var l' v')
  | block {ss ss' : List Stmt} (body : List.Forall₂ (Stmt.Like R mode) ss ss') :
      Like R mode (.block ss) (.block ss')
  | branch {c c' : Expr} {s s' : Stmt} {o o' : Option Stmt} (condition : c.Like R c')
      (whenTrue : Like R mode s s') (whenFalse : Option.Rel (Stmt.Like R mode) o o') :
      Like R mode (.branch c s o) (.branch c' s' o')
  | loop {c c' : Expr} {s s' : Stmt} (condition : c.Like R c') (body : Like R mode s s') :
      Like R mode (.loop c s) (.loop c' s')
  | leave {p p' : Place} (place : R p p') : Like R mode (.leave p) (.leave p')
  | yield {p p' : Place} {v v' : Option Expr} (place : R p p')
      (value : Option.Rel (Expr.Like R) v v') : Like R mode (.yield p v) (.yield p' v')
  | function {d d' : Signature} {ss ss' : List Stmt} (signature : d.Like R mode d')
      (body : List.Forall₂ (Stmt.Like R mode) ss ss') :
      Like R mode (.function d ss) (.function d' ss')
  | contract {kind : ContractKind} {p p' : Place} {es es' : List Expr} {message : Option String}
      (place : R p p') (conditions : List.Forall₂ (Expr.Like R) es es') :
      Like R mode (.contract kind p ⟨es, message⟩) (.contract kind p' ⟨es', message⟩)
  | load {path : String} {p p' : Place} {l l' : Option Lexeme} (place : R p p')
      (space : Option.Rel (Lexeme.Like R) l l') : Like R mode (.load path p l) (.load path p' l')
  | test {name : String} {p p' : Place} {s s' : Stmt} (allowed : mode = .tested) (place : R p p')
      (body : Like R mode s s') : Like R mode (.test name p s) (.test name p' s')
  | dropped {p : Place} {clauses : Clauses} (allowed : mode = .erasing)
      (pure : Expr.allPure clauses.conditions = true) :
      Like R mode (.contract .assertion p clauses) (.block [])

theorem Clauses.Like.refl [Std.Refl R] (mode : Mode) (c : Clauses) : c.Like R mode c :=
  .same (Expr.Like.reflAll c.conditions)

theorem Signature.Like.refl [Std.Refl R] (mode : Mode) (s : Signature) : s.Like R mode s :=
  ⟨.refl s.name, List.forall₂_same.mpr fun l _ => .refl l, .refl mode s.before,
    .refl mode s.after⟩

mutual

/-- A statement is like itself, if it has no tests or may have some. -/
theorem Stmt.Like.refl [Std.Refl R] {mode : Mode} :
    (s : Stmt) → (mode ≠ .tested → s.TestFree) → s.Like R mode s
  | .expression e, _ => .expression (.refl e)
  | .print e, _ => .print (.refl e)
  | .var name value, _ => .var (.refl name) (optionRel_refl fun e _ => .refl e)
  | .block body, h => .block (reflAll body fun on => by simpa [Stmt.TestFree] using h on)
  | .branch condition whenTrue whenFalse, h =>
    .branch (.refl condition) (refl whenTrue fun on => by
        have free := h on
        rw [Stmt.TestFree] at free
        exact free.1)
      (reflOption whenFalse fun on => by
        have free := h on
        rw [Stmt.TestFree] at free
        exact free.2)
  | .loop condition body, h => .loop (.refl condition) (refl body fun on => by
      simpa [Stmt.TestFree] using h on)
  | .leave _, _ => .leave (Std.Refl.refl _)
  | .yield _ value, _ => .yield (Std.Refl.refl _) (optionRel_refl fun e _ => .refl e)
  | .function signature body, h => .function (.refl mode signature) (reflAll body fun on => by
      simpa [Stmt.TestFree] using h on)
  | .contract _ _ clauses, _ => .contract (Std.Refl.refl _) (Expr.Like.reflAll clauses.conditions)
  | .load _ _ space, _ => .load (Std.Refl.refl _) (optionRel_refl fun l _ => .refl l)
  | .test _ _ body, h => by
    -- a test is like itself only where tests are compared; elsewhere there is none
    by_cases tested : mode = .tested
    · exact .test tested (Std.Refl.refl _) (refl body fun untested => absurd tested untested)
    · have free := h tested
      rw [Stmt.TestFree] at free
      exact free.elim

theorem Stmt.Like.reflAll [Std.Refl R] {mode : Mode} :
    (body : List Stmt) → (mode ≠ .tested → Stmt.AllTestFree body) →
      List.Forall₂ (Stmt.Like R mode) body body
  | [], _ => .nil
  | s :: rest, h => .cons (refl s fun on => (h on).1) (reflAll rest fun on => (h on).2)

theorem Stmt.Like.reflOption [Std.Refl R] {mode : Mode} :
    (s : Option Stmt) → (mode ≠ .tested → Stmt.OptionTestFree s) →
      Option.Rel (Stmt.Like R mode) s s
  | none, _ => .none
  | some s, h => .some (refl s fun on => h on)

end

end ContractScript
