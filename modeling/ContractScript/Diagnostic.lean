/-
Reports on a source that is not well formed. A source can have many; running it
needs none.
-/
import ContractScript.Lexeme

set_option autoImplicit false

namespace ContractScript

/-- Where on its line a diagnostic points. -/
inductive Spot where
  | line
  | atEnd
  | lexeme (text : String)
deriving Repr, DecidableEq

/-- The wording of a spot inside a diagnostic. -/
def Spot.text : Spot → String
  | .line => ""
  | .atEnd => " at end"
  | .lexeme text => " at '" ++ text ++ "'"

/-- What is wrong with a source. -/
inductive Complaint where
  | unexpectedCharacter (c : Char)
  | unterminatedText
  /-- Something else was required here. -/
  | expect (what : String)
  | missingLeftOperand
  | invalidTarget
  | noCondition
  | breakOutsideLoop
  | returnOutsideFunction
  | tooManyParameters
  | tooManyArguments
  | nestsTooDeeply
deriving Repr, DecidableEq

/-- The greatest number of parameters and of arguments. -/
def maxArguments : Nat := 255

/-- The wording of a complaint. -/
def Complaint.message : Complaint → String
  | .unexpectedCharacter c => "Unexpected character '" ++ String.singleton c ++ "'."
  | .unterminatedText => "Unterminated string."
  | .expect what => "Expect " ++ what ++ "."
  | .missingLeftOperand => "Missing left-hand operand."
  | .invalidTarget => "Invalid assignment target."
  | .noCondition => "Expect at least one condition."
  | .breakOutsideLoop => "Expected 'break' inside a loop."
  | .returnOutsideFunction => "Cannot return from top-level code."
  | .tooManyParameters => "Can't have more than " ++ toString maxArguments ++ " parameters."
  | .tooManyArguments => "Can't have more than " ++ toString maxArguments ++ " arguments."
  | .nestsTooDeeply => "Source nests too deeply."

/-- A complaint at a place. -/
structure Diagnostic where
  place : Place
  spot : Spot
  complaint : Complaint
deriving Repr, DecidableEq

/-- A diagnostic on one line. -/
def Diagnostic.text (d : Diagnostic) : String :=
  "[" ++ d.place.text ++ "] Error" ++ d.spot.text ++ ": " ++ d.complaint.message

/-- Diagnostics, one a line. -/
def Diagnostic.report (ds : List Diagnostic) : String :=
  "\n".intercalate (ds.map Diagnostic.text)

end ContractScript
