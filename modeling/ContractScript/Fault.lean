/-
What can go wrong while a program runs.

A `Fault` is an error of the program: it has a cause, it is located at a lexeme,
and it carries the calls that were in progress. A test catches it and a report
shows it. A `Defect` is anything else that goes wrong; nothing in the language
catches it. A run can also stop without anything being wrong: it is followed for
a number of rounds of a loop only, and then it is left unfinished.
-/
import ContractScript.Diagnostic
import ContractScript.Http
import ContractScript.Text.Utf8

set_option autoImplicit false

namespace ContractScript

/-- A call in progress: the name of the function and the place of the call. -/
structure Frame where
  name : String
  place : Place
deriving Repr, DecidableEq

/-- A call in progress as a report shows it. -/
def Frame.text (f : Frame) : String :=
  "in " ++ f.name ++ " called from [" ++ f.place.text ++ "]"

/-- What a built-in function wanted. -/
inductive Wanted where
  | collection
  | map
  | list
  | path
  | content
  | url
  | get
deriving Repr, DecidableEq

/-- The wording of what was wanted. -/
def Wanted.text : Wanted → String
  | .collection => "a list, map or string"
  | .map => "a map"
  | .list => "a list"
  | .path => "a string (file path)"
  | .content => "a string (content)"
  | .url => "a string url"
  | .get => "'GET'"

/-- Why a program failed. -/
inductive Cause where
  | undefinedVariable (name : String)
  | undefinedNamespace (name : String)
  | notCallable
  | wrongArity (expected got : Nat)
  | operandNotNumber
  | operandsNotNumbers
  | notAddable
  | divisionByZero
  | indexNotWhole
  | indexOutOfBounds
  | keyNotFound
  | notIndexable
  | notSliceable
  | sliceOutOfRange
  | precondition (message : Option String)
  | postcondition (message : Option String)
  | assertion (message : Option String)
  | importRefused (path reason : String)
  | moduleNotFound (path : String)
  | circularImport (path : String)
  | moduleErrors (path : String) (diagnostics : List Diagnostic)
  /-- A built-in function was given something else, shown as text. -/
  | unexpected (wanted : Wanted) (got : String)
  | readRefused (reason : String)
  | writeRefused (reason : String)
  | requestFailed (reason : String)
  | stackOverflow
deriving Repr, DecidableEq

/-- A label, followed by a message if there is one. -/
def withMessage (label : String) : Option String → String
  | none => label
  | some message => if message.isEmpty then label else label ++ ": " ++ message

/-- The wording of a cause. -/
def Cause.message : Cause → String
  | .undefinedVariable name => "Undefined variable '" ++ name ++ "'."
  | .undefinedNamespace name => "Undefined namespace '" ++ name ++ "'."
  | .notCallable => "Can only call functions."
  | .wrongArity expected got =>
    "Expected " ++ toString expected ++ " arguments but got " ++ toString got ++ "."
  | .operandNotNumber => "Operand must be a number."
  | .operandsNotNumbers => "Operands must be numbers."
  | .notAddable => "Operands must be two numbers, two lists, or include a string."
  | .divisionByZero => "Division by zero."
  | .indexNotWhole => "Index must be a whole number."
  | .indexOutOfBounds => "Index out of bounds."
  | .keyNotFound => "Key not found in map."
  | .notIndexable => "Can only index lists, maps and strings."
  | .notSliceable => "Can only slice lists and strings."
  | .sliceOutOfRange => "Slice bounds out of range."
  | .precondition message => withMessage "Precondition failed" message ++ "."
  | .postcondition message => withMessage "Postcondition failed" message ++ "."
  | .assertion message => withMessage "Assertion failed" message ++ "."
  | .importRefused path reason => "Cannot import '" ++ path ++ "': " ++ reason ++ "."
  | .moduleNotFound path => "Cannot import '" ++ path ++ "': module not found."
  | .circularImport path => "Circular import detected: '" ++ path ++ "'."
  | .moduleErrors path diagnostics =>
    "Errors in module '" ++ path ++ "':\n" ++ Diagnostic.report diagnostics
  | .unexpected wanted got => "Expected " ++ wanted.text ++ " but got " ++ got ++ "."
  | .readRefused reason => "Error reading file: " ++ reason
  | .writeRefused reason => "Error writing file: " ++ reason
  | .requestFailed reason => "Error sending HTTP request: " ++ reason
  | .stackOverflow => "Stack overflow."

/-- Whether a contract was broken. -/
def Cause.isContract : Cause → Bool
  | .precondition _ => true
  | .postcondition _ => true
  | .assertion _ => true
  | _ => false

/-- An error of a program. Faults of built-in functions and of contracts get
their lexeme from the call; the calls in progress, outermost first, are noted
when the fault first leaves a call. -/
structure Fault where
  cause : Cause
  lexeme : Option Lexeme
  stack : Option (List Frame)
deriving Repr, DecidableEq

/-- Anything else that stops a run. -/
inductive Defect where
  /-- The remainder of an infinite number. -/
  | mathDomain
  /-- A path with a null character. -/
  | nullByte
  /-- A file that is not UTF-8. -/
  | undecodable (m : Text.Utf8.Malformed)
  /-- A pause that cannot be made. -/
  | pause (e : Http.PauseError)
  /-- Nesting beyond the limit. -/
  | tooDeep
  /-- The user interrupted an input. -/
  | interrupted
deriving Repr, DecidableEq

/-- The wording of a defect. -/
def Defect.message : Defect → String
  | .mathDomain => "math domain error"
  | .nullByte => "embedded null byte"
  | .undecodable m => m.message
  | .pause e => e.message
  | .tooDeep => "maximum recursion depth exceeded"
  | .interrupted => ""

/-- Why a run stopped. -/
inductive Failure where
  | fault (fault : Fault)
  | defect (defect : Defect)
  /-- A loop has more rounds than the run is followed for. -/
  | unfinished
deriving Repr, DecidableEq

/-- A fault at a lexeme. -/
def Failure.at (lexeme : Lexeme) (cause : Cause) : Failure :=
  .fault ⟨cause, some lexeme, none⟩

/-- A fault that the enclosing call will locate. -/
def Failure.unlocated (cause : Cause) : Failure :=
  .fault ⟨cause, none, none⟩

end ContractScript
