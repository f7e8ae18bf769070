/-
Tokens. A token is a kind and the lexeme it was read from; the value of a number
or a text token is a function of its lexeme, so it is not stored.
-/
import ContractScript.Lexeme
import ContractScript.Number.Notation

set_option autoImplicit false

namespace ContractScript

/-- The kinds of token. -/
inductive Token.Kind where
  | leftParen | rightParen | leftBrace | rightBrace | leftSquare | rightSquare
  | comma | dot | minus | plus | semicolon | slash | star | percent | question | colon
  | bang | bangEqual | equal | equalEqual | greater | greaterEqual | less | lessEqual
  | doubleColon
  | identifier | text | number
  | kwAnd | kwElse | kwFalse | kwFor | kwFun | kwIf | kwNil | kwOr | kwPrint | kwReturn | kwTrue
  | kwVar | kwWhile | kwBreak | kwPrecondition | kwPostcondition | kwAssertion | kwCheck | kwTest
  | kwImport | kwAs
deriving Repr, DecidableEq

/-- A token of a source. -/
structure Token where
  kind : Token.Kind
  lexeme : Lexeme
deriving Repr, DecidableEq

/-- The tokens of a source and the place of its end. -/
structure TokenList where
  tokens : List Token
  ending : Place
deriving Repr, DecidableEq

namespace Token

/-- The words that are not identifiers. -/
def keywords : List (String × Kind) :=
  [("and", .kwAnd), ("else", .kwElse), ("false", .kwFalse), ("for", .kwFor), ("fun", .kwFun), ("if", .kwIf),
   ("nil", .kwNil), ("or", .kwOr), ("print", .kwPrint), ("return", .kwReturn), ("true", .kwTrue),
   ("var", .kwVar), ("while", .kwWhile), ("break", .kwBreak), ("precondition", .kwPrecondition),
   ("postcondition", .kwPostcondition), ("assertion", .kwAssertion), ("check", .kwCheck),
   ("test", .kwTest), ("import", .kwImport), ("as", .kwAs)]

/-- The kind of a word. -/
def wordKind (word : List Char) : Kind :=
  match keywords.find? fun entry => entry.1.toList == word with
  | some entry => entry.2
  | none => .identifier

/-- The kinds of the characters that are tokens whatever follows. -/
def singleKind? : Char → Option Kind
  | '(' => some .leftParen
  | ')' => some .rightParen
  | '\x7b' => some .leftBrace
  | '\x7d' => some .rightBrace
  | '[' => some .leftSquare
  | ']' => some .rightSquare
  | ',' => some .comma
  | '.' => some .dot
  | '-' => some .minus
  | '+' => some .plus
  | ';' => some .semicolon
  | '*' => some .star
  | '%' => some .percent
  | '?' => some .question
  | _ => none

/-- The characters that form a longer token with a second one: that second
character, the kind of the pair, and the kind of the character alone. -/
def pairKind? : Char → Option (Char × Kind × Kind)
  | '!' => some ('=', .bangEqual, .bang)
  | '=' => some ('=', .equalEqual, .equal)
  | '<' => some ('=', .lessEqual, .less)
  | '>' => some ('=', .greaterEqual, .greater)
  | ':' => some (':', .doubleColon, .colon)
  | _ => none

/-- The text inside the quotes of a text token. -/
def unquote (lexeme : List Char) : List Char :=
  (lexeme.drop 1).dropLast

/-- The number that a number token spells. -/
def numberValue (lexeme : List Char) : Float :=
  let whole := lexeme.takeWhile (· != '.')
  let fraction := (lexeme.dropWhile (· != '.')).drop 1
  Number.ofDecimal whole fraction 0

/-- The value of a token of kind text. -/
def content (t : Token) : String :=
  String.ofList (unquote t.lexeme.text.toList)

/-- The value of a token of kind number. -/
def number (t : Token) : Float :=
  numberValue t.lexeme.text.toList

/-- The place of a token. -/
def place (t : Token) : Place := t.lexeme.place

end Token

end ContractScript
