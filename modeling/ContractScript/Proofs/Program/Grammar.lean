/-
The grammar of programs, as a relation between token lists and trees.

Each nonterminal is a predicate that says which token lists it derives and which
tree a derivation assigns. Nothing here refers to how tokens are read: there is
no cursor, no lookahead and no budget. A repetition such as `( op operand )*` is
a predicate that carries the tree built so far, so that the operators of a tier
group to the left.

Three rules choose between readings that the bare grammar would leave open:

* a `{` that starts a statement opens a block, so no expression statement starts
  with one (the start of a counting loop is no statement of its own);
* an `else` belongs to the nearest `if`. Every statement carries a flag that
  says whether it ends in an `if` that could still take an `else`, and what
  stands between an `if` and its `else` may not;
* a lone text as the last clause of a contract is its message.
-/
import ContractScript.Program.Parser

set_option autoImplicit false

namespace ContractScript.Grammar

open ContractScript.Parser (Tier Join)

/-! ## Lists and options -/

/-- Items with commas between them, at least one. -/
inductive Separated {α : Type} (item : List Token → α → Prop) : List Token → List α → Prop
  | one {ts : List Token} {a : α} : item ts a → Separated item ts [a]
  | more {ts rest : List Token} {comma : Token} {a : α} {as : List α} :
      item ts a → comma.kind = .comma → Separated item rest as →
      Separated item (ts ++ comma :: rest) (a :: as)

/-- Items with commas between them, or nothing. -/
inductive Items {α : Type} (item : List Token → α → Prop) : List Token → List α → Prop
  | none : Items item [] []
  | some {ts : List Token} {as : List α} : Separated item ts as → Items item ts as

/-- An item or nothing. -/
inductive Optional {α : Type} (item : List Token → α → Prop) : List Token → Option α → Prop
  | none : Optional item [] none
  | some {ts : List Token} {a : α} : item ts a → Optional item ts (some a)

/-- An item after a token of a kind. -/
inductive Led {α : Type} (kind : Token.Kind) (item : List Token → α → Prop) :
    List Token → α → Prop
  | mk {t : Token} {ts : List Token} {a : α} : t.kind = kind → item ts a → Led kind item (t :: ts) a

/-- A single identifier. -/
inductive Identifier : List Token → Lexeme → Prop
  | mk {t : Token} : t.kind = .identifier → Identifier [t] t.lexeme

/-- Identifiers with namespace separators between them, at least one. -/
inductive Path : List Token → List Lexeme → Prop
  | one {t : Token} : t.kind = .identifier → Path [t] [t.lexeme]
  | more {t separator : Token} {rest : List Token} {names : List Lexeme} :
      t.kind = .identifier → separator.kind = .doubleColon → Path rest names →
      Path (t :: separator :: rest) (t.lexeme :: names)

/-! ## Expressions -/

/-- The binary operators of each tier and the nodes they build. -/
inductive Joins : Tier → Token.Kind → Join → Prop
  | or : Joins .or .kwOr (.logical .or)
  | and : Joins .and .kwAnd (.logical .and)
  | unequal : Joins .equality .bangEqual (.binary .unequal)
  | equal : Joins .equality .equalEqual (.binary .equal)
  | greater : Joins .comparison .greater (.binary .greater)
  | greaterEqual : Joins .comparison .greaterEqual (.binary .greaterEqual)
  | less : Joins .comparison .less (.binary .less)
  | lessEqual : Joins .comparison .lessEqual (.binary .lessEqual)
  | subtract : Joins .term .minus (.binary .subtract)
  | add : Joins .term .plus (.binary .add)
  | divide : Joins .factor .slash (.binary .divide)
  | multiply : Joins .factor .star (.binary .multiply)
  | remainder : Joins .factor .percent (.binary .remainder)

/-- Constants. -/
inductive Constant : Token → Literal → Prop
  | falseWord {t : Token} : t.kind = .kwFalse → Constant t (.bool false)
  | trueWord {t : Token} : t.kind = .kwTrue → Constant t (.bool true)
  | nilWord {t : Token} : t.kind = .kwNil → Constant t .nil
  | number {t : Token} : t.kind = .number → Constant t (.num t.number)
  | text {t : Token} : t.kind = .text → Constant t (.text t.content)

mutual

/-- `assignment → IDENT "=" assignment | choice` -/
inductive Assignment : List Token → Expr → Prop
  | assign {name equals : Token} {ts : List Token} {value : Expr} :
      name.kind = .identifier → equals.kind = .equal → Assignment ts value →
      Assignment (name :: equals :: ts) (.assign name.lexeme value)
  | choice {ts : List Token} {e : Expr} : Choice ts e → Assignment ts e

/-- `choice → or ( "?" choice ":" choice )?` -/
inductive Choice : List Token → Expr → Prop
  | plain {ts : List Token} {e : Expr} : Level .or ts e → Choice ts e
  | choice {question colon : Token} {cs ts fs : List Token} {c t f : Expr} :
      Level .or cs c → question.kind = .question → Choice ts t → colon.kind = .colon →
      Choice fs f → Choice (cs ++ question :: (ts ++ colon :: fs)) (.choice c t f)

/-- `tier → operand ( op operand )*` -/
inductive Level : Tier → List Token → Expr → Prop
  | mk {t : Tier} {ts rest : List Token} {left e : Expr} :
      Operand t ts left → Operators t left rest e → Level t (ts ++ rest) e

/-- The operands of a tier belong to the next tighter tier. -/
inductive Operand : Tier → List Token → Expr → Prop
  | or {ts : List Token} {e : Expr} : Level .and ts e → Operand .or ts e
  | and {ts : List Token} {e : Expr} : Level .equality ts e → Operand .and ts e
  | equality {ts : List Token} {e : Expr} : Level .comparison ts e → Operand .equality ts e
  | comparison {ts : List Token} {e : Expr} : Level .term ts e → Operand .comparison ts e
  | term {ts : List Token} {e : Expr} : Level .factor ts e → Operand .term ts e
  | factor {ts : List Token} {e : Expr} : Unary ts e → Operand .factor ts e

/-- `( op operand )*` after a left operand, grouped to the left. -/
inductive Operators : Tier → Expr → List Token → Expr → Prop
  | done {t : Tier} {left : Expr} : Operators t left [] left
  | more {t : Tier} {op : Token} {join : Join} {ts rest : List Token} {left right e : Expr} :
      Joins t op.kind join → Operand t ts right →
      Operators t (join op.place left right) rest e → Operators t left (op :: (ts ++ rest)) e

/-- `unary → ( "!" | "-" ) unary | postfixed` -/
inductive Unary : List Token → Expr → Prop
  | not {op : Token} {ts : List Token} {e : Expr} :
      op.kind = .bang → Unary ts e → Unary (op :: ts) (.unary .not op.place e)
  | negate {op : Token} {ts : List Token} {e : Expr} :
      op.kind = .minus → Unary ts e → Unary (op :: ts) (.unary .negate op.place e)
  | postfixed {ts : List Token} {e : Expr} : Postfixed ts e → Unary ts e

/-- `postfixed → primary suffix*` -/
inductive Postfixed : List Token → Expr → Prop
  | mk {ts rest : List Token} {operand e : Expr} :
      Primary ts operand → Suffixes operand rest e → Postfixed (ts ++ rest) e

/-- `( "(" args? ")" | "[" expr ( ":" expr )? "]" )*` after an operand. -/
inductive Suffixes : Expr → List Token → Expr → Prop
  | done {operand : Expr} : Suffixes operand [] operand
  | call {opening close : Token} {ts rest : List Token} {operand e : Expr} {items : List Expr} :
      opening.kind = .leftParen → Items Assignment ts items → close.kind = .rightParen →
      Suffixes (.call operand close.place items) rest e →
      Suffixes operand (opening :: (ts ++ close :: rest)) e
  | index {bracket close : Token} {ts rest : List Token} {operand key e : Expr} :
      bracket.kind = .leftSquare → Assignment ts key → close.kind = .rightSquare →
      Suffixes (.index operand bracket.place key) rest e →
      Suffixes operand (bracket :: (ts ++ close :: rest)) e
  | slice {bracket colon close : Token} {ts us rest : List Token} {operand first last e : Expr} :
      bracket.kind = .leftSquare → Assignment ts first → colon.kind = .colon →
      Assignment us last → close.kind = .rightSquare →
      Suffixes (.slice operand bracket.place first last) rest e →
      Suffixes operand (bracket :: (ts ++ colon :: (us ++ close :: rest))) e

/-- `primary → constant | IDENT ( "::" IDENT )* | "(" expr ")" | "[" items? "]" | "{" entries? "}"` -/
inductive Primary : List Token → Expr → Prop
  | literal {t : Token} {value : Literal} : Constant t value → Primary [t] (.literal value)
  | name {t : Token} : t.kind = .identifier → Primary [t] (.variable t.lexeme)
  | qualified {ts : List Token} {spaces : List Lexeme} {name : Lexeme} :
      Path ts (spaces ++ [name]) → spaces ≠ [] → Primary ts (.qualified spaces name)
  | group {opening close : Token} {ts : List Token} {e : Expr} :
      opening.kind = .leftParen → Assignment ts e → close.kind = .rightParen →
      Primary (opening :: (ts ++ [close])) (.group e)
  | list {opening close : Token} {ts : List Token} {items : List Expr} :
      opening.kind = .leftSquare → Items Assignment ts items → close.kind = .rightSquare →
      Primary (opening :: (ts ++ [close])) (.list items)
  | map {opening close : Token} {ts : List Token} {entries : List (Expr × Expr)} :
      opening.kind = .leftBrace → Items MapEntry ts entries → close.kind = .rightBrace →
      Primary (opening :: (ts ++ [close])) (.map entries)

/-- `entry → expr ":" expr` -/
inductive MapEntry : List Token → Expr × Expr → Prop
  | mk {colon : Token} {ks vs : List Token} {key value : Expr} :
      Assignment ks key → colon.kind = .colon → Assignment vs value →
      MapEntry (ks ++ colon :: vs) (key, value)

end

/-- `expr → assignment` -/
abbrev Expression : List Token → Expr → Prop := Assignment

/-! ## Contracts -/

/-- A list of tokens that is one text. -/
def LoneText (ts : List Token) : Prop :=
  ∃ t : Token, ts = [t] ∧ t.kind = .text

/-- `clauses → clause ( "," clause )*`, at least one of them a condition. A lone text in
last place is the message. -/
inductive Conditions : List Token → List Expr → Option Token → Prop
  | last {ts : List Token} {e : Expr} : Expression ts e → ¬LoneText ts → Conditions ts [e] none
  | message {comma text : Token} {ts : List Token} {e : Expr} :
      Expression ts e → comma.kind = .comma → text.kind = .text →
      Conditions (ts ++ [comma, text]) [e] (some text)
  | more {comma : Token} {ts rest : List Token} {e : Expr} {es : List Expr}
      {message : Option Token} :
      Expression ts e → comma.kind = .comma → Conditions rest es message →
      Conditions (ts ++ comma :: rest) (e :: es) message

/-- The clauses of a contract. -/
inductive ContractClauses : List Token → Clauses → Prop
  | mk {ts : List Token} {conditions : List Expr} {message : Option Token} :
      Conditions ts conditions message →
      ContractClauses ts ⟨conditions, message.map Token.content⟩

/-- `( word ":" clauses )?` -/
inductive FunctionClauses (kind : Token.Kind) : List Token → Clauses → Prop
  | none : FunctionClauses kind [] Clauses.none
  | some {word colon : Token} {ts : List Token} {found : Clauses} :
      word.kind = kind → colon.kind = .colon → ContractClauses ts found →
      FunctionClauses kind (word :: colon :: ts) found

/-! ## Statements -/

/-- `IDENT ( "=" expr )? ";"`, after the keyword. -/
inductive VarDeclaration : List Token → Stmt → Prop
  | mk {name semicolon : Token} {ts : List Token} {value : Option Expr} :
      name.kind = .identifier → Optional (Led .equal Expression) ts value →
      semicolon.kind = .semicolon →
      VarDeclaration (name :: (ts ++ [semicolon])) (.var name.lexeme value)

/-- `expr ";"` -/
inductive ExpressionStatement : List Token → Stmt → Prop
  | mk {semicolon : Token} {ts : List Token} {e : Expr} :
      Expression ts e → semicolon.kind = .semicolon →
      ExpressionStatement (ts ++ [semicolon]) (.expression e)

/-- What a counting loop does first. -/
inductive LoopStart : List Token → Option Stmt → Prop
  | none {semicolon : Token} : semicolon.kind = .semicolon → LoopStart [semicolon] none
  | var {keyword : Token} {ts : List Token} {s : Stmt} :
      keyword.kind = .kwVar → VarDeclaration ts s → LoopStart (keyword :: ts) (some s)
  | expression {ts : List Token} {s : Stmt} : ExpressionStatement ts s → LoopStart ts (some s)

/-- Several statements as one: a block unless there is just one. -/
def grouped : List Stmt → Stmt
  | [s] => s
  | body => .block body

/-- A counting loop: the start, then a loop that does the body and then the step, as long as
the condition holds. -/
def countingLoop (start : Option Stmt) (condition step : Option Expr) (body : Stmt) : Stmt :=
  grouped (start.toList ++
    [.loop (condition.getD (.literal (.bool true)))
      (grouped (body :: step.toList.map Stmt.expression))])

/-- `IDENT "(" params? ")" ( precondition clauses )? ( postcondition clauses )?` -/
inductive FunctionSignature : List Token → Signature → Prop
  | mk {name opening close : Token} {ps bs as : List Token} {parameters : List Lexeme}
      {before after : Clauses} :
      name.kind = .identifier → opening.kind = .leftParen → Items Identifier ps parameters →
      close.kind = .rightParen → FunctionClauses .kwPrecondition bs before →
      FunctionClauses .kwPostcondition as after →
      FunctionSignature (name :: opening :: (ps ++ close :: (bs ++ as)))
        ⟨name.lexeme, parameters, before, after⟩

/-- The words that start a contract statement. -/
inductive ContractWord : Token → ContractKind → Prop
  | assertion {t : Token} : t.kind = .kwAssertion → ContractWord t .assertion
  | check {t : Token} : t.kind = .kwCheck → ContractWord t .check

/-- Whether the first token is of a kind. -/
def StartsWith (kind : Token.Kind) (ts : List Token) : Prop :=
  ∃ t rest, ts = t :: rest ∧ t.kind = kind

mutual

/-- Statements; the flag says whether an `else` right behind would belong to them. -/
inductive Statement : Bool → List Token → Stmt → Prop
  | print {keyword semicolon : Token} {ts : List Token} {e : Expr} :
      keyword.kind = .kwPrint → Expression ts e → semicolon.kind = .semicolon →
      Statement false (keyword :: (ts ++ [semicolon])) (.print e)
  | block {opening close : Token} {ts : List Token} {body : List Stmt} :
      opening.kind = .leftBrace → Declarations ts body → close.kind = .rightBrace →
      Statement false (opening :: (ts ++ [close])) (.block body)
  | branch {keyword opening close : Token} {cs ts : List Token} {c : Expr} {s : Stmt}
      {takesElse : Bool} :
      keyword.kind = .kwIf → opening.kind = .leftParen → Expression cs c →
      close.kind = .rightParen → Statement takesElse ts s →
      Statement true (keyword :: opening :: (cs ++ close :: ts)) (.branch c s none)
  | branchElse {keyword opening close other : Token} {cs ts us : List Token} {c : Expr}
      {s u : Stmt} {takesElse : Bool} :
      keyword.kind = .kwIf → opening.kind = .leftParen → Expression cs c →
      close.kind = .rightParen → Statement false ts s → other.kind = .kwElse →
      Statement takesElse us u →
      Statement takesElse (keyword :: opening :: (cs ++ close :: (ts ++ other :: us)))
        (.branch c s (some u))
  | loop {keyword opening close : Token} {cs ts : List Token} {c : Expr} {s : Stmt}
      {takesElse : Bool} :
      keyword.kind = .kwWhile → opening.kind = .leftParen → Expression cs c →
      close.kind = .rightParen → Statement takesElse ts s →
      Statement takesElse (keyword :: opening :: (cs ++ close :: ts)) (.loop c s)
  | counting {keyword opening semicolon close : Token} {is cs us ts : List Token}
      {start : Option Stmt} {condition step : Option Expr} {s : Stmt} {takesElse : Bool} :
      keyword.kind = .kwFor → opening.kind = .leftParen → LoopStart is start →
      Optional Expression cs condition → semicolon.kind = .semicolon →
      Optional Expression us step → close.kind = .rightParen → Statement takesElse ts s →
      Statement takesElse
        (keyword :: opening :: (is ++ (cs ++ semicolon :: (us ++ close :: ts))))
        (countingLoop start condition step s)
  | leave {keyword semicolon : Token} :
      keyword.kind = .kwBreak → semicolon.kind = .semicolon →
      Statement false [keyword, semicolon] (.leave keyword.place)
  | yield {keyword semicolon : Token} {ts : List Token} {value : Option Expr} :
      keyword.kind = .kwReturn → Optional Expression ts value →
      semicolon.kind = .semicolon →
      Statement false (keyword :: (ts ++ [semicolon])) (.yield keyword.place value)
  | contract {word colon semicolon : Token} {kind : ContractKind} {ts : List Token}
      {found : Clauses} :
      ContractWord word kind → colon.kind = .colon → ContractClauses ts found →
      semicolon.kind = .semicolon →
      Statement false (word :: colon :: (ts ++ [semicolon])) (.contract kind word.place found)
  | load {keyword path semicolon : Token} {ts : List Token} {space : Option Lexeme} :
      keyword.kind = .kwImport → path.kind = .text → Optional (Led .kwAs Identifier) ts space →
      semicolon.kind = .semicolon →
      Statement false (keyword :: path :: (ts ++ [semicolon]))
        (.load path.content path.place space)
  | expression {ts : List Token} {s : Stmt} :
      ExpressionStatement ts s → ¬StartsWith .leftBrace ts → Statement false ts s

/-- Declarations and statements. -/
inductive Declaration : List Token → Stmt → Prop
  | var {keyword : Token} {ts : List Token} {s : Stmt} :
      keyword.kind = .kwVar → VarDeclaration ts s → Declaration (keyword :: ts) s
  | function {keyword opening close : Token} {ss ts : List Token} {signature : Signature}
      {body : List Stmt} :
      keyword.kind = .kwFun → FunctionSignature ss signature → opening.kind = .leftBrace →
      Declarations ts body → close.kind = .rightBrace →
      Declaration (keyword :: (ss ++ opening :: (ts ++ [close]))) (.function signature body)
  | test {keyword name : Token} {ts : List Token} {s : Stmt} {takesElse : Bool} :
      keyword.kind = .kwTest → name.kind = .text → Statement takesElse ts s →
      Declaration (keyword :: name :: ts) (.test name.content name.place s)
  | statement {ts : List Token} {s : Stmt} {takesElse : Bool} :
      Statement takesElse ts s → Declaration ts s

/-- Declarations one after another. -/
inductive Declarations : List Token → List Stmt → Prop
  | done : Declarations [] []
  | more {ts rest : List Token} {s : Stmt} {body : List Stmt} :
      Declaration ts s → Declarations rest body → Declarations (ts ++ rest) (s :: body)

end

/-- `program → declaration*` -/
abbrev Derives : List Token → Program → Prop := Declarations

end ContractScript.Grammar
