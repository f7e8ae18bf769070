/-
Programs as trees. Expressions compute values, statements act; a program is a
list of statements. What a later error may have to point at is kept beside the
node: the place of an operator, of a closing parenthesis, of a bracket.
-/
import ContractScript.Lexeme

set_option autoImplicit false

namespace ContractScript

/-! ## Expressions -/

/-- Constants that can be written in a program. -/
inductive Literal where
  | nil
  | bool (value : Bool)
  | num (value : Float)
  | text (value : String)
deriving Repr

/-- Operators with one operand. -/
inductive UnaryOp where
  | not
  | negate
deriving Repr, DecidableEq

/-- Operators that evaluate both operands. -/
inductive BinaryOp where
  | add | subtract | multiply | divide | remainder
  | equal | unequal
  | greater | greaterEqual | less | lessEqual
deriving Repr, DecidableEq

/-- Operators that evaluate the right operand only if needed. -/
inductive LogicalOp where
  | and
  | or
deriving Repr, DecidableEq

/-- How an operator is written. -/
def UnaryOp.symbol : UnaryOp → String
  | .not => "!"
  | .negate => "-"

/-- How an operator is written. -/
def BinaryOp.symbol : BinaryOp → String
  | .add => "+"
  | .subtract => "-"
  | .multiply => "*"
  | .divide => "/"
  | .remainder => "%"
  | .equal => "=="
  | .unequal => "!="
  | .greater => ">"
  | .greaterEqual => ">="
  | .less => "<"
  | .lessEqual => "<="

/-- How an operator is written. -/
def LogicalOp.symbol : LogicalOp → String
  | .and => "and"
  | .or => "or"

/-- Expressions. -/
inductive Expr where
  | literal (value : Literal)
  | group (inner : Expr)
  | unary (op : UnaryOp) (place : Place) (operand : Expr)
  | binary (op : BinaryOp) (place : Place) (left right : Expr)
  | logical (op : LogicalOp) (place : Place) (left right : Expr)
  | choice (condition whenTrue whenFalse : Expr)
  | variable (name : Lexeme)
  /-- A name inside namespaces, outermost first. -/
  | qualified (spaces : List Lexeme) (name : Lexeme)
  | assign (name : Lexeme) (value : Expr)
  /-- A call, with the place of its closing parenthesis. -/
  | call (callee : Expr) (close : Place) (arguments : List Expr)
  | list (items : List Expr)
  | map (entries : List (Expr × Expr))
  | index (collection : Expr) (bracket : Place) (key : Expr)
  | slice (collection : Expr) (bracket : Place) (first last : Expr)
deriving Repr, Inhabited

/-! ## Statements -/

/-- The clauses of a contract: conditions that must all hold, and what to say
when one does not. -/
structure Clauses where
  conditions : List Expr
  message : Option String
deriving Repr, Inhabited

/-- No conditions at all. -/
def Clauses.none : Clauses := ⟨[], Option.none⟩

/-- What a function declares before its body. -/
structure Signature where
  name : Lexeme
  parameters : List Lexeme
  before : Clauses
  after : Clauses
deriving Repr, Inhabited

/-- Contract statements: one stops the program, the other only warns. -/
inductive ContractKind where
  | assertion
  | check
deriving Repr, DecidableEq

/-- The word that starts a contract statement. -/
def ContractKind.word : ContractKind → String
  | .assertion => "assertion"
  | .check => "check"

/-- Statements. -/
inductive Stmt where
  | expression (value : Expr)
  | print (value : Expr)
  | var (name : Lexeme) (value : Option Expr)
  | block (body : List Stmt)
  | branch (condition : Expr) (whenTrue : Stmt) (whenFalse : Option Stmt)
  | loop (condition : Expr) (body : Stmt)
  | leave (place : Place)
  | yield (place : Place) (value : Option Expr)
  | function (signature : Signature) (body : List Stmt)
  | contract (kind : ContractKind) (place : Place) (clauses : Clauses)
  | load (path : String) (place : Place) (space : Option Lexeme)
  | test (name : String) (place : Place) (body : Stmt)
deriving Repr, Inhabited

/-- A program. -/
abbrev Program := List Stmt

/-- Statements that a module contributes to whoever imports it. -/
def Stmt.isDeclaration : Stmt → Bool
  | .function .. => true
  | .var .. => true
  | .load .. => true
  | _ => false

end ContractScript
