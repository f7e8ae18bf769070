/-
The outline of a program: an indented tree with one line for each node and each
of its fields.

A program is first laid out as a tree of labelled fields, in which every node is
a title with fields in a fixed order, and the tree is then written with a chosen
indentation. The titles and labels are the vocabulary of the outline.
-/
import ContractScript.Number.Notation
import ContractScript.Program

set_option autoImplicit false

namespace ContractScript

/-- A node of an outline: a title and labelled fields. -/
inductive Outline where
  | node (title : String) (fields : List (String × Outline))
  /-- A field that is a word on the line of its label. -/
  | word (text : String)
  /-- A field that is a list of words, one a line. -/
  | words (items : List String)
  /-- A field that is a list of nodes. -/
  | nodes (items : List Outline)
deriving Repr, Inhabited

namespace Outline

/-! ## Layout of programs -/

/-- A text between double quotes, with nothing escaped. -/
def enclosed (text : String) : String :=
  "\"" ++ text ++ "\""

/-- The word for a literal. -/
def ofLiteral : Literal → Outline
  | .nil => word "nil"
  | .bool true => word "true"
  | .bool false => word "false"
  | .num x => word (Number.Layout.plain.text x)
  | .text s => word (enclosed s)

/-- The word for an optional message. -/
def ofMessage : Option String → Outline
  | some message => word (enclosed message)
  | none => word "nil"

/-- A list of lexemes. -/
def ofLexemes (names : List Lexeme) : Outline :=
  words (names.map Lexeme.text)

mutual

/-- The outline of an expression. -/
def ofExpr : Expr → Outline
  | .literal value => node "Literal" [("value", ofLiteral value)]
  | .group inner => node "Grouping" [("expression", ofExpr inner)]
  | .unary op _ operand =>
    node "Unary" [("operator", word op.symbol), ("right", ofExpr operand)]
  | .binary op _ left right =>
    node "Binary" [("left", ofExpr left), ("operator", word op.symbol), ("right", ofExpr right)]
  | .logical op _ left right =>
    node "Logical" [("left", ofExpr left), ("operator", word op.symbol), ("right", ofExpr right)]
  | .choice condition whenTrue whenFalse =>
    node "Ternary"
      [("condition", ofExpr condition), ("then_branch", ofExpr whenTrue),
       ("else_branch", ofExpr whenFalse)]
  | .variable name => node "Variable" [("name", word name.text)]
  | .qualified spaces name => node "NamespacedVariable" [("parts", ofLexemes (spaces ++ [name]))]
  | .assign name value => node "Assign" [("name", word name.text), ("value", ofExpr value)]
  | .call callee _ arguments =>
    node "Call"
      [("callee", ofExpr callee), ("paren", word ")"), ("arguments", nodes (ofExprs arguments))]
  | .list items => node "ListLiteral" [("elements", nodes (ofExprs items))]
  | .map entries =>
    node "MapLiteral" [("keys", nodes (ofKeys entries)), ("values", nodes (ofValues entries))]
  | .index collection _ key =>
    node "IndexAccess"
      [("collection", ofExpr collection), ("bracket", word "["), ("index", ofExpr key)]
  | .slice collection _ first last =>
    node "SliceAccess"
      [("collection", ofExpr collection), ("bracket", word "["), ("start", ofExpr first),
       ("end", ofExpr last)]

/-- The outlines of expressions. -/
def ofExprs : List Expr → List Outline
  | [] => []
  | e :: rest => ofExpr e :: ofExprs rest

/-- The outlines of the keys of map entries. -/
def ofKeys : List (Expr × Expr) → List Outline
  | [] => []
  | (k, _) :: rest => ofExpr k :: ofKeys rest

/-- The outlines of the values of map entries. -/
def ofValues : List (Expr × Expr) → List Outline
  | [] => []
  | (_, v) :: rest => ofExpr v :: ofValues rest

end

/-- The outline of an optional expression. -/
def ofExpr? : Option Expr → Outline
  | some e => ofExpr e
  | none => word "nil"

mutual

/-- The outline of a statement. -/
def ofStmt : Stmt → Outline
  | .expression value => node "Expression" [("expression", ofExpr value)]
  | .print value => node "Print" [("expression", ofExpr value)]
  | .var name value => node "Var" [("name", word name.text), ("initializer", ofExpr? value)]
  | .block body => node "Block" [("statements", nodes (ofStmts body))]
  | .branch condition whenTrue whenFalse =>
    node "If"
      [("condition", ofExpr condition), ("then_branch", ofStmt whenTrue),
       ("else_branch", ofStmt? whenFalse)]
  | .loop condition body => node "While" [("condition", ofExpr condition), ("body", ofStmt body)]
  | .leave _ => node "Break" [("keyword", word "break")]
  | .yield _ value => node "Return" [("keyword", word "return"), ("value", ofExpr? value)]
  | .function signature body =>
    node "Function"
      [("name", word signature.name.text), ("params", ofLexemes signature.parameters),
       ("body", nodes (ofStmts body)),
       ("preconditions", nodes (ofExprs signature.before.conditions)),
       ("postconditions", nodes (ofExprs signature.after.conditions)),
       ("precondition_message", ofMessage signature.before.message),
       ("postcondition_message", ofMessage signature.after.message)]
  | .contract kind _ clauses =>
    node "Contract"
      [("keyword", word kind.word), ("conditions", nodes (ofExprs clauses.conditions)),
       ("message", ofMessage clauses.message)]
  | .load path _ space =>
    node "Import"
      [("path", word (enclosed path)),
       ("alias", word (match space with | some name => name.text | none => "nil"))]
  | .test name _ body => node "Test" [("name", word (enclosed name)), ("body", ofStmt body)]

/-- The outlines of statements. -/
def ofStmts : List Stmt → List Outline
  | [] => []
  | s :: rest => ofStmt s :: ofStmts rest

/-- The outline of an optional statement. -/
def ofStmt? : Option Stmt → Outline
  | some s => ofStmt s
  | none => word "nil"

end

/-! ## Depth

An outline is written by calls within calls: one for a node, within it one for
each of its fields, and within that one for the node that the field is. -/

/-- The calls in each other that write a node, by those that write the fields that
are no lexemes. Two list its fields before any is written. -/
def nodeCalls (fields : List Nat) : Nat :=
  fields.foldr max 2 + 1

/-- The calls in each other that write a field that is left out. Values are
written by a call of their own. -/
def noneCalls : Nat := 2

/-- The calls in each other that write a field that is a value. There is a call
for each kind of value. -/
def valueCalls : Nat := 3

/-- The calls in each other that write a literal as a field. -/
def literalCalls : Literal → Nat
  | .nil => noneCalls
  | _ => valueCalls

/-- The calls in each other that write an optional message as a field. -/
def messageCalls : Option String → Nat
  | some _ => valueCalls
  | none => noneCalls

mutual

/-- The calls in each other that write an expression. -/
def exprCalls : Expr → Nat
  | .literal value => nodeCalls [literalCalls value]
  | .group inner => nodeCalls [exprCalls inner + 1]
  | .unary _ _ operand => nodeCalls [exprCalls operand + 1]
  | .binary _ _ left right => nodeCalls [exprCalls left + 1, exprCalls right + 1]
  | .logical _ _ left right => nodeCalls [exprCalls left + 1, exprCalls right + 1]
  | .choice condition whenTrue whenFalse =>
    nodeCalls [exprCalls condition + 1, exprCalls whenTrue + 1, exprCalls whenFalse + 1]
  | .variable _ => nodeCalls []
  | .qualified _ _ => nodeCalls []
  | .assign _ value => nodeCalls [exprCalls value + 1]
  | .call callee _ arguments => nodeCalls [exprCalls callee + 1, exprsCalls arguments + 1]
  | .list items => nodeCalls [exprsCalls items + 1]
  | .map entries => nodeCalls [entriesCalls entries + 1]
  | .index collection _ key => nodeCalls [exprCalls collection + 1, exprCalls key + 1]
  | .slice collection _ first last =>
    nodeCalls [exprCalls collection + 1, exprCalls first + 1, exprCalls last + 1]

/-- The calls in each other that write expressions one after another. -/
def exprsCalls : List Expr → Nat
  | [] => 0
  | e :: rest => max (exprCalls e) (exprsCalls rest)

/-- The calls in each other that write the keys and values of a map. -/
def entriesCalls : List (Expr × Expr) → Nat
  | [] => 0
  | (k, v) :: rest => max (max (exprCalls k) (exprCalls v)) (entriesCalls rest)

end

/-- The calls in each other that write an optional expression as a field. -/
def optionCalls : Option Expr → Nat
  | some e => exprCalls e + 1
  | none => noneCalls

mutual

/-- The calls in each other that write a statement. -/
def stmtCalls : Stmt → Nat
  | .expression value => nodeCalls [exprCalls value + 1]
  | .print value => nodeCalls [exprCalls value + 1]
  | .var _ value => nodeCalls [optionCalls value]
  | .block body => nodeCalls [stmtsCalls body + 1]
  | .branch condition whenTrue whenFalse =>
    nodeCalls [exprCalls condition + 1, stmtCalls whenTrue + 1, elseCalls whenFalse]
  | .loop condition body => nodeCalls [exprCalls condition + 1, stmtCalls body + 1]
  | .leave _ => nodeCalls []
  | .yield _ value => nodeCalls [optionCalls value]
  | .function signature body =>
    nodeCalls
      [stmtsCalls body + 1, exprsCalls signature.before.conditions + 1,
       exprsCalls signature.after.conditions + 1, messageCalls signature.before.message,
       messageCalls signature.after.message]
  | .contract _ _ clauses =>
    nodeCalls [exprsCalls clauses.conditions + 1, messageCalls clauses.message]
  | .load _ _ (some _) => nodeCalls []
  | .load _ _ none => nodeCalls [noneCalls]
  | .test _ _ body => nodeCalls [stmtCalls body + 1]

/-- The calls in each other that write statements one after another. -/
def stmtsCalls : List Stmt → Nat
  | [] => 0
  | s :: rest => max (stmtCalls s) (stmtsCalls rest)

/-- The calls in each other that write the other branch as a field. -/
def elseCalls : Option Stmt → Nat
  | some s => stmtCalls s + 1
  | none => noneCalls

end

/-! ## Writing -/

/-- An indentation of `level` steps. -/
def indent (step : String) (level : Nat) : String :=
  String.join (List.replicate level step)

mutual

/-- The lines of a node at a level. -/
def nodeLines (step : String) (level : Nat) : Outline → List String
  | .node title fields => (indent step level ++ title ++ ":") :: fieldsLines step (level + 1) fields
  | .word _ => []
  | .words _ => []
  | .nodes items => itemsLines step level items

/-- The lines of labelled fields at a level. -/
def fieldsLines (step : String) (level : Nat) : List (String × Outline) → List String
  | [] => []
  | (label, value) :: rest =>
    fieldLines step level label value ++ fieldsLines step level rest

/-- The lines of one field. -/
def fieldLines (step : String) (level : Nat) (label : String) : Outline → List String
  | .node title fields =>
    (indent step level ++ "- " ++ label ++ ":")
      :: (indent step (level + 1) ++ title ++ ":") :: fieldsLines step (level + 2) fields
  | .word text => [indent step level ++ "- " ++ label ++ ": " ++ text]
  | .words [] => [indent step level ++ "- " ++ label ++ ": []"]
  | .words items =>
    (indent step level ++ "- " ++ label ++ ":")
      :: items.map fun item => indent step (level + 1) ++ "- " ++ item
  | .nodes [] => [indent step level ++ "- " ++ label ++ ": []"]
  | .nodes items =>
    (indent step level ++ "- " ++ label ++ ":") :: itemsLines step (level + 1) items

/-- The lines of a list of nodes. -/
def itemsLines (step : String) (level : Nat) : List Outline → List String
  | [] => []
  | item :: rest => nodeLines step level item ++ itemsLines step level rest

end

end Outline

/-- The calls in each other that write the outline of a program: one for the
program, one that goes through its statements, and those for a statement. -/
def Program.outlineCalls (program : Program) : Nat :=
  Outline.stmtsCalls program + 2

/-- The outline of a program as text, indented by `width` blanks a level. -/
def Program.outline (width : Nat) (program : Program) : String :=
  let step := String.ofList (List.replicate width ' ')
  "\n".intercalate (Outline.itemsLines step 0 (Outline.ofStmts program))

end ContractScript
