/-
From tokens to programs.

Every production nests one level deeper than the production that called it, and
a parse has a budget of levels; when it runs out the source nests too deeply and
parsing stops there. Repetition inside a production is bounded by the number of
all tokens, since every round takes one.

A production that cannot go on reports why and gives up. The declaration it
belongs to then skips to a likely start of the next statement, so one parse
reports every error it can find. Some faults are reported without giving up:
the statement is well formed apart from them.
-/
import ContractScript.Diagnostic
import ContractScript.Program
import ContractScript.Segment

set_option autoImplicit false

namespace ContractScript.Parser

/-- Why a production gave up. -/
inductive Stop where
  /-- A fault that has been reported. -/
  | fault
  /-- The budget of levels is used up. -/
  | depth
deriving Repr, DecidableEq

/-- The tokens that are left, the number of all tokens, the end of the source,
and the reports so far, latest first. -/
structure State where
  rest : List Token
  total : Nat
  rest_le : rest.length ≤ total
  ending : Place
  reports : List Diagnostic
deriving Repr

/-- A step of parsing. -/
abbrev ParseM := EStateM Stop State

/-- What surrounds a statement. -/
structure Context where
  keepTests : Bool
  inLoop : Bool
  inFunction : Bool
deriving Repr

/-! ## Tokens -/

/-- The next token, unless at the end. -/
def current? : ParseM (Option Token) := do
  return (← get).rest.head?

/-- The number of all tokens; no more are left. -/
def total : ParseM Nat := do
  return (← get).total

/-- The state with fewer tokens left. -/
def State.goTo (s : State) (rest : List Token) (h : rest.length ≤ s.rest.length) : State :=
  { s with rest := rest, rest_le := Nat.le_trans h s.rest_le }

/-- Takes the next token. -/
def advance : ParseM Unit :=
  modify fun s => s.goTo (s.rest.drop 1) (List.drop_sublist 1 s.rest).length_le

/-- Whether the next token is of a kind. -/
def check (kind : Token.Kind) : ParseM Bool := do
  match ← current? with
  | some t => return t.kind == kind
  | none => return false

/-- Takes the next token if it has a result. -/
def taking {α : Type} : Option α → ParseM (Option α)
  | some a => do
    advance
    return some a
  | none => return none

/-- Takes the next token if its kind yields a result. -/
def acceptMap {α : Type} (f : Token → Option α) : ParseM (Option α) := do
  match ← current? with
  | some t => taking (f t)
  | none => return none

/-- Takes the next token if it is of a kind. -/
def accept (kind : Token.Kind) : ParseM (Option Token) :=
  acceptMap fun t => if t.kind == kind then some t else none

/-- Takes the next token if it is of a kind, and says whether it was. -/
def accepted (kind : Token.Kind) : ParseM Bool := do
  return (← accept kind).isSome

/-! ## Reports -/

/-- Reports at a token. -/
def complainAt (t : Token) (complaint : Complaint) : ParseM Unit :=
  modify fun s => { s with reports := ⟨t.place, .lexeme t.lexeme.text, complaint⟩ :: s.reports }

/-- Reports at the next token, or at the end. -/
def complain (complaint : Complaint) : ParseM Unit := do
  match ← current? with
  | some t => complainAt t complaint
  | none => modify fun s => { s with reports := ⟨s.ending, .atEnd, complaint⟩ :: s.reports }

/-- Reports at the next token and gives up. -/
def fail {α : Type} (complaint : Complaint) : ParseM α := do
  complain complaint
  throw .fault

/-- Reports at a token unless something holds. -/
def complainUnless (holds : Bool) (t : Token) (complaint : Complaint) : ParseM Unit :=
  if holds then pure () else complainAt t complaint

/-- Takes a token of a kind, which has to be next. -/
def expect (kind : Token.Kind) (what : String) : ParseM Token := do
  match ← accept kind with
  | some t => return t
  | none => fail (.expect what)

/-! ## Parts that may be missing -/

/-- What follows a token of a kind, or nothing if that token is not next. -/
def following {α : Type} (kind : Token.Kind) (next : ParseM α) : ParseM (Option α) := do
  if ← accepted kind then return some (← next)
  return none

/-- An item, or nothing if the closing token is next. -/
def itemUnless {α : Type} (close : Token.Kind) (item : ParseM α) : ParseM (Option α) := do
  if ← check close then return none
  return some (← item)

/-! ## Repetition -/

/-- Items with commas between them; `before` is told how many have been read.
`rounds` bounds the number of items. -/
def commaSeparated {α : Type} (before : Nat → ParseM Unit) (item : ParseM α) :
    Nat → Nat → ParseM (List α)
  | 0, _ => return []
  | rounds + 1, count => do
    before count
    let first ← item
    if ← accepted .comma then
      return first :: (← commaSeparated before item rounds (count + 1))
    else
      return [first]

/-- Items with commas between them, or nothing if the closing token is next. -/
def itemsUntil {α : Type} (close : Token.Kind) (before : Nat → ParseM Unit) (item : ParseM α) :
    ParseM (List α) := do
  if ← check close then
    return []
  else
    commaSeparated before item ((← total) + 1) 0

/-- Reports an item beyond the permitted number. -/
def limitCount (complaint : Complaint) (count : Nat) : ParseM Unit :=
  if maxArguments ≤ count then complain complaint else pure ()

/-! ## Operators -/

/-- Binary operators by how tightly they bind, loosest first. -/
inductive Tier where
  | or | and | equality | comparison | term | factor
deriving Repr, DecidableEq

/-- Builds the node of an operator at a place. -/
abbrev Join := Place → Expr → Expr → Expr

/-- The node that a token of this tier builds. -/
def Tier.join? : Tier → Token.Kind → Option Join
  | .or, .kwOr => some (.logical .or)
  | .and, .kwAnd => some (.logical .and)
  | .equality, .bangEqual => some (.binary .unequal)
  | .equality, .equalEqual => some (.binary .equal)
  | .comparison, .greater => some (.binary .greater)
  | .comparison, .greaterEqual => some (.binary .greaterEqual)
  | .comparison, .less => some (.binary .less)
  | .comparison, .lessEqual => some (.binary .lessEqual)
  | .term, .minus => some (.binary .subtract)
  | .term, .plus => some (.binary .add)
  | .factor, .slash => some (.binary .divide)
  | .factor, .star => some (.binary .multiply)
  | .factor, .percent => some (.binary .remainder)
  | _, _ => none

/-- The next tighter tier; `none` below the last. -/
def Tier.tighter? : Tier → Option Tier
  | .or => some .and
  | .and => some .equality
  | .equality => some .comparison
  | .comparison => some .term
  | .term => some .factor
  | .factor => none

/-- Unary operators. -/
def unaryOp? (t : Token) : Option (UnaryOp × Place) :=
  match t.kind with
  | .bang => some (.not, t.place)
  | .minus => some (.negate, t.place)
  | _ => none

/-- Tokens that only make sense after an operand. -/
def needsLeftOperand (kind : Token.Kind) : Bool :=
  kind ∈ [.plus, .star, .slash, .percent, .equalEqual, .bangEqual, .greater, .greaterEqual,
    .less, .lessEqual, .kwAnd, .kwOr]

/-- Constants. -/
def literal? (t : Token) : Option Literal :=
  match t.kind with
  | .kwFalse => some (.bool false)
  | .kwTrue => some (.bool true)
  | .kwNil => some .nil
  | .number => some (.num t.number)
  | .text => some (.text t.content)
  | _ => none

/-- Left-associative operators of one tier after a first operand. -/
def operators (tier : Tier) (operand : ParseM Expr) : Nat → Expr → ParseM Expr
  | 0, left => return left
  | rounds + 1, left => do
    let op ← acceptMap fun t => (tier.join? t.kind).map fun join => join t.place
    match op with
    | some join =>
      let right ← operand
      operators tier operand rounds (join left right)
    | none => return left

/-- The names that follow a name and its namespace separators. -/
def qualifiers : Nat → ParseM (List Lexeme)
  | 0 => return []
  | rounds + 1 => do
    if ← accepted .doubleColon then
      let t ← expect .identifier "name after '::'"
      return t.lexeme :: (← qualifiers rounds)
    else
      return []

/-- Calls and subscripts after an operand, each built by its own production. -/
def suffixes (call subscript : Expr → Place → ParseM Expr) : Nat → Expr → ParseM Expr
  | 0, operand => return operand
  | rounds + 1, operand => do
    if let some t ← accept .leftParen then
      let next ← call operand t.place
      suffixes call subscript rounds next
    else if let some t ← accept .leftSquare then
      let next ← subscript operand t.place
      suffixes call subscript rounds next
    else
      return operand

/-- The expression for a name and the names that follow it. -/
def nameExpr (name : Lexeme) (more : List Lexeme) : Expr :=
  match more.getLast? with
  | none => .variable name
  | some last => .qualified (name :: more.dropLast) last

/-- An assignment. A target that is no plain name is reported and the assignment
dropped. -/
def assigning (equals : Token) (target value : Expr) : ParseM Expr :=
  match target with
  | .variable name => return .assign name value
  | _ => do
    complainAt equals .invalidTarget
    return target

/-! ## Expressions -/

mutual

/-- Any expression. -/
def expression : Nat → ParseM Expr
  | 0 => throw .depth
  | depth + 1 => assignment depth

/-- An assignment, or a choice. -/
def assignment : Nat → ParseM Expr
  | 0 => throw .depth
  | depth + 1 => do
    let target ← choice depth
    match ← accept .equal with
    | none => return target
    | some equals =>
      let value ← assignment depth
      assigning equals target value

/-- A conditional expression. -/
def choice : Nat → ParseM Expr
  | 0 => throw .depth
  | depth + 1 => do
    let condition ← tier depth .or
    if ← accepted .question then
      let whenTrue ← choice depth
      let _ ← expect .colon "':' in conditional expression"
      let whenFalse ← choice depth
      return .choice condition whenTrue whenFalse
    else
      return condition

/-- Operators of a tier and all tighter ones. -/
def tier : Nat → Tier → ParseM Expr
  | 0, _ => throw .depth
  | depth + 1, t => do
    let operand := match t.tighter? with
      | some next => tier depth next
      | none => unary depth
    let left ← operand
    operators t operand (← total) left

/-- Unary operators. -/
def unary : Nat → ParseM Expr
  | 0 => throw .depth
  | depth + 1 => do
    match ← acceptMap unaryOp? with
    | some (op, place) => return .unary op place (← unary depth)
    | none => postfixed depth

/-- An operand with its calls and subscripts. -/
def postfixed : Nat → ParseM Expr
  | 0 => throw .depth
  | depth + 1 => do
    let operand ← primary depth
    suffixes (fun callee _ => arguments depth callee) (subscript depth) (← total) operand

/-- The arguments of a call, after its opening parenthesis. -/
def arguments : Nat → Expr → ParseM Expr
  | 0, _ => throw .depth
  | depth + 1, callee => do
    let items ← itemsUntil .rightParen (limitCount .tooManyArguments) (expression depth)
    let close ← expect .rightParen "')' after arguments"
    return .call callee close.place items

/-- A subscript, after its opening bracket. -/
def subscript : Nat → Expr → Place → ParseM Expr
  | 0, _, _ => throw .depth
  | depth + 1, collection, bracket => do
    let first ← expression depth
    if ← accepted .colon then
      let last ← expression depth
      let _ ← expect .rightSquare "']' after slice"
      return .slice collection bracket first last
    else
      let _ ← expect .rightSquare "']' after index"
      return .index collection bracket first

/-- An operand by itself. -/
def primary : Nat → ParseM Expr
  | 0 => throw .depth
  | depth + 1 => do
    if let some value ← acceptMap literal? then
      return .literal value
    if let some name ← accept .identifier then
      return nameExpr name.lexeme (← qualifiers (← total))
    if ← accepted .leftParen then
      let inner ← expression depth
      let _ ← expect .rightParen "')' after expression"
      return .group inner
    if ← accepted .leftSquare then
      let items ← itemsUntil .rightSquare (fun _ => pure ()) (expression depth)
      let _ ← expect .rightSquare "']' after list elements"
      return .list items
    if ← accepted .leftBrace then
      return ← mapEntries depth
    match ← acceptMap fun t => if needsLeftOperand t.kind then some t else none with
    | some t =>
      complainAt t .missingLeftOperand
      throw .fault
    | none => fail (.expect "expression")

/-- The entries of a map, after its opening brace. -/
def mapEntries : Nat → ParseM Expr
  | 0 => throw .depth
  | depth + 1 => do
    let entry : ParseM (Expr × Expr) := do
      let key ← expression depth
      let _ ← expect .colon "':' after map key"
      let value ← expression depth
      return (key, value)
    let entries ← itemsUntil .rightBrace (fun _ => pure ()) entry
    let _ ← expect .rightBrace "'\x7d' after map entries"
    return .map entries

end

/-! ## Contracts -/

/-- Whether the next token is a text directly followed by one of `ends`. -/
def messageNext (ends : List Token.Kind) : ParseM Bool := do
  match (← get).rest with
  | t :: next :: _ => return t.kind == .text && ends.contains next.kind
  | _ => return false

/-- The clauses of a contract. A text that ends them is the message, not a
condition. -/
def clauseItems (ends : List Token.Kind) (condition : ParseM Expr) :
    Nat → ParseM (List Expr × Option Token)
  | 0 => return ([], none)
  | rounds + 1 => do
    if ← messageNext ends then
      return ([], ← accept .text)
    let first ← condition
    if ← accepted .comma then
      let (more, message) ← clauseItems ends condition rounds
      return (first :: more, message)
    else
      return ([first], none)

/-- The clauses of a contract, of which at least one must be a condition. -/
def clauses (ends : List Token.Kind) : Nat → ParseM Clauses
  | 0 => throw .depth
  | depth + 1 => do
    let (conditions, message) ← clauseItems ends (expression depth) ((← total) + 1)
    match conditions, message with
    | [], some t =>
      complainAt t .noCondition
      throw .fault
    | _, _ => return ⟨conditions, message.map Token.content⟩

/-! ## Statements -/

/-- Words that start a statement. -/
def startsStatement (kind : Token.Kind) : Bool :=
  kind ∈ [.kwFun, .kwVar, .kwFor, .kwIf, .kwWhile, .kwPrint, .kwReturn, .kwBreak, .kwImport,
    .kwTest, .kwAssertion, .kwCheck]

/-- Skips to the start of a statement or past a semicolon, after a token of
kind `previous`. -/
def skip (previous : Token.Kind) : List Token → List Token
  | [] => []
  | t :: rest =>
    if previous == .semicolon || startsStatement t.kind then t :: rest else skip t.kind rest

/-- Where to go on after a fault: at least one token is dropped. -/
def recover : List Token → List Token
  | [] => []
  | t :: rest => skip t.kind rest

theorem length_skip_le (previous : Token.Kind) (rest : List Token) :
    (skip previous rest).length ≤ rest.length := by
  induction rest generalizing previous with
  | nil => exact Nat.le_refl _
  | cons t rest ih =>
    rw [skip]
    split
    · exact Nat.le_refl _
    · exact Nat.le_succ_of_le (ih t.kind)

/-- Recovery always moves forward. -/
theorem length_recover_lt (t : Token) (rest : List Token) :
    (recover (t :: rest)).length < (t :: rest).length :=
  Nat.lt_succ_of_le (length_skip_le t.kind rest)

theorem length_recover_le (rest : List Token) : (recover rest).length ≤ rest.length :=
  match rest with
  | [] => Nat.le_refl _
  | t :: rest => Nat.le_of_lt (length_recover_lt t rest)

/-- Runs a production; after a reported fault skips ahead and yields nothing. -/
def recovering (production : ParseM (Option Stmt)) : ParseM (Option Stmt) :=
  tryCatch production fun stop =>
    match stop with
    | .fault => do
      modify fun s => s.goTo (recover s.rest) (length_recover_le s.rest)
      return none
    | .depth => throw .depth

/-- Statements up to a closing brace or the end. -/
def statementsUntilBrace (declaration : ParseM (Option Stmt)) : Nat → ParseM (List Stmt)
  | 0 => return []
  | rounds + 1 => do
    match ← current? with
    | none => return []
    | some t =>
      if t.kind == .rightBrace then return []
      let first ← declaration
      let rest ← statementsUntilBrace declaration rounds
      return first.toList ++ rest

/-- A variable declaration, after its keyword. -/
def varDeclaration : Nat → ParseM Stmt
  | 0 => throw .depth
  | depth + 1 => do
    let name ← expect .identifier "variable name"
    let value ← following .equal (expression depth)
    let _ ← expect .semicolon "';' after variable declaration"
    return .var name.lexeme value

/-- An expression statement. -/
def expressionStatement : Nat → ParseM Stmt
  | 0 => throw .depth
  | depth + 1 => do
    let value ← expression depth
    let _ ← expect .semicolon "';' after expression"
    return .expression value

/-- A print statement, after its keyword. -/
def printStatement : Nat → ParseM Stmt
  | 0 => throw .depth
  | depth + 1 => do
    let value ← expression depth
    let _ ← expect .semicolon "';' after value"
    return .print value

/-- A `break`, after its keyword; outside a loop it is reported. -/
def leaveStatement (context : Context) (place : Token) : ParseM Stmt := do
  let _ ← expect .semicolon "';' after 'break'"
  complainUnless context.inLoop place .breakOutsideLoop
  return .leave place.place

/-- A `return`, after its keyword; outside a function it is reported. -/
def yieldStatement (context : Context) (keyword : Token) : Nat → ParseM Stmt
  | 0 => throw .depth
  | depth + 1 => do
    complainUnless context.inFunction keyword .returnOutsideFunction
    let value ← itemUnless .semicolon (expression depth)
    let _ ← expect .semicolon "';' after return value"
    return .yield keyword.place value

/-- A contract statement, after its keyword. -/
def contractStatement (kind : ContractKind) (place : Place) : Nat → ParseM Stmt
  | 0 => throw .depth
  | depth + 1 => do
    let _ ← expect .colon ("':' after '" ++ kind.word ++ "'")
    let found ← clauses [.semicolon] depth
    let _ ← expect .semicolon ("';' after " ++ kind.word ++ " conditions")
    return .contract kind place found

/-- An import, after its keyword. -/
def loadStatement : ParseM Stmt := do
  let path ← expect .text "module path string after 'import'"
  let space ← following .kwAs (expect .identifier "namespace name after 'as'")
  let _ ← expect .semicolon "';' after import"
  return .load path.content path.place (space.map Token.lexeme)

/-- What a counting loop does first, up to and with its semicolon. -/
def loopStart (depth : Nat) : ParseM (Option Stmt) := do
  if ← accepted .semicolon then return none
  if ← accepted .kwVar then return some (← varDeclaration depth)
  return some (← expressionStatement depth)

/-- A counting loop as a block: first the start, then a loop whose body ends
with the step. Without a condition it runs until left. -/
def forLoop (start : Option Stmt) (condition step : Option Expr) (body : Stmt) : Stmt :=
  let body := match step with
    | some e => .block [body, .expression e]
    | none => body
  let loop := Stmt.loop (condition.getD (.literal (.bool true))) body
  match start with
  | some s => .block [s, loop]
  | none => loop

/-- The contract of a function that starts with `word`. -/
def functionClauses (kind : Token.Kind) (word : String) (ends : List Token.Kind) (depth : Nat) :
    ParseM Clauses := do
  if ← accepted kind then
    let _ ← expect .colon ("':' after '" ++ word ++ "'")
    clauses ends depth
  else
    return Clauses.none

/-- What a function declares before its body, after the keyword. -/
def signature (depth : Nat) : ParseM Signature := do
  let name ← expect .identifier "function name"
  let _ ← expect .leftParen "'(' after function name"
  let parameters ← itemsUntil .rightParen (limitCount .tooManyParameters)
    (expect .identifier "parameter name")
  let _ ← expect .rightParen "')' after parameters"
  let before ← functionClauses .kwPrecondition "precondition" [.kwPostcondition, .leftBrace] depth
  let after ← functionClauses .kwPostcondition "postcondition" [.leftBrace] depth
  let _ ← expect .leftBrace "'\x7b' before function body"
  return ⟨name.lexeme, parameters.map Token.lexeme, before, after⟩

mutual

/-- A declaration or statement; nothing after a fault, or for a test that is
not kept. -/
def declaration (context : Context) : Nat → ParseM (Option Stmt)
  | 0 => throw .depth
  | depth + 1 => recovering do
    if ← accepted .kwVar then
      return some (← varDeclaration depth)
    if ← accepted .kwFun then
      return some (← function context depth)
    if ← accepted .kwTest then
      let test ← testStatement context depth
      return if context.keepTests then some test else none
    return some (← statement context depth)

/-- A function, after its keyword. Its body starts outside any loop. -/
def function (context : Context) : Nat → ParseM Stmt
  | 0 => throw .depth
  | depth + 1 => do
    let signature ← signature depth
    let body ← block { context with inLoop := false, inFunction := true } depth
    return .function signature body

/-- A test, after its keyword. Its body can neither break nor return. -/
def testStatement (context : Context) : Nat → ParseM Stmt
  | 0 => throw .depth
  | depth + 1 => do
    let name ← expect .text "test name"
    let body ← statement { context with inLoop := false, inFunction := false } depth
    return .test name.content name.place body

/-- A statement. -/
def statement (context : Context) : Nat → ParseM Stmt
  | 0 => throw .depth
  | depth + 1 => do
    if ← accepted .kwPrint then
      return ← printStatement depth
    if ← accepted .leftBrace then
      return .block (← block context depth)
    if ← accepted .kwIf then
      return ← branch context depth
    if ← accepted .kwWhile then
      return ← whileLoop context depth
    if ← accepted .kwFor then
      return ← forStatement context depth
    if let some keyword ← accept .kwBreak then
      return ← leaveStatement context keyword
    if let some keyword ← accept .kwReturn then
      return ← yieldStatement context keyword depth
    if let some keyword ← accept .kwAssertion then
      return ← contractStatement .assertion keyword.place depth
    if let some keyword ← accept .kwCheck then
      return ← contractStatement .check keyword.place depth
    if ← accepted .kwImport then
      return ← loadStatement
    expressionStatement depth

/-- The statements of a block, after its opening brace. -/
def block (context : Context) : Nat → ParseM (List Stmt)
  | 0 => throw .depth
  | depth + 1 => do
    let body ← statementsUntilBrace (declaration context depth) (← total)
    let _ ← expect .rightBrace "'\x7d' after block"
    return body

/-- A conditional statement, after its keyword. -/
def branch (context : Context) : Nat → ParseM Stmt
  | 0 => throw .depth
  | depth + 1 => do
    let _ ← expect .leftParen "'(' after 'if'"
    let condition ← expression depth
    let _ ← expect .rightParen "')' after if condition"
    let whenTrue ← statement context depth
    let whenFalse ← following .kwElse (statement context depth)
    return .branch condition whenTrue whenFalse

/-- The body of a loop. -/
def loopBody (context : Context) : Nat → ParseM Stmt
  | 0 => throw .depth
  | depth + 1 => statement { context with inLoop := true } depth

/-- A loop, after its keyword. -/
def whileLoop (context : Context) : Nat → ParseM Stmt
  | 0 => throw .depth
  | depth + 1 => do
    let _ ← expect .leftParen "'(' after 'while'"
    let condition ← expression depth
    let _ ← expect .rightParen "')' after while condition"
    let body ← loopBody context depth
    return .loop condition body

/-- A counting loop, after its keyword. -/
def forStatement (context : Context) : Nat → ParseM Stmt
  | 0 => throw .depth
  | depth + 1 => do
    let _ ← expect .leftParen "'(' after 'for'"
    let start ← loopStart depth
    let condition ← itemUnless .semicolon (expression depth)
    let _ ← expect .semicolon "';' after loop condition"
    let step ← itemUnless .rightParen (expression depth)
    let _ ← expect .rightParen "')' after for clauses"
    let body ← loopBody context depth
    return forLoop start condition step body

end

/-! ## Programs -/

/-- One declaration of a program: running out of levels is reported instead of
giving up. -/
def attempting (one : ParseM (Option Stmt)) : ParseM (Option (Option Stmt)) :=
  tryCatch (some <$> one) fun _ => do
    complain .nestsTooDeeply
    return none

/-- Declarations up to the end. When the budget of levels runs out, the
statements before are kept. -/
def declarations (one : ParseM (Option Stmt)) : Nat → ParseM Program
  | 0 => return []
  | rounds + 1 => do
    match ← current? with
    | none => return []
    | some _ =>
      match ← attempting one with
      | none => return []
      | some stmt => return stmt.toList ++ (← declarations one rounds)

/-- The number of levels that a source may nest. -/
def nesting : Nat := 970

/-- The state in which parsing starts. -/
def State.start (input : TokenList) : State :=
  ⟨input.tokens, input.tokens.length, Nat.le_refl _, input.ending, []⟩

/-- The context outside all statements. -/
def Context.top (keepTests : Bool) : Context := ⟨keepTests, false, false⟩

end Parser

/-- Parses tokens into a program and reports what is wrong with them. Tests are
parsed in any case, and kept if `keepTests`. -/
def Program.parse (keepTests : Bool) (input : TokenList) : Program × List Diagnostic :=
  let one := Parser.declaration (Parser.Context.top keepTests) Parser.nesting
  match Parser.declarations one input.tokens.length (Parser.State.start input) with
  | .ok program s => (program, s.reports.reverse)
  | .error _ s => ([], s.reports.reverse)

/-- Scans and parses a source. -/
def Program.ofSource (keepTests : Bool) (file : Option String) (source : String) :
    Program × List Diagnostic :=
  let (tokens, complaints) := TokenList.scan file source
  let (program, reports) := Program.parse keepTests tokens
  (program, complaints ++ reports)

end ContractScript
